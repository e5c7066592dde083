import FileServer.Model.WorkerFunctions

/-!
# `API.c`, seen from the server

The requests a call of the client library makes, one after the other. A client waits for the answer to
a request before it sends the next one.
-/

namespace FileServer

/-- `openFile`; `create` is the flag `O_CREATE`. -/
def openFile (create : Bool) (fd : Nat) (path : Path) (pid : Pid) : Handler Unit := do
  if create then
    let response ← fileSearch fd path
    if response = ENOENT then
      fileInit fd path
      fileOpen fd path pid
  else fileOpen fd path pid

/-- What a client may have the server do. -/
inductive ClientStarts {W : Type} (cfg : Config) : W → Handler Unit → Prop where
  | request (w : W) (fuel fd : Nat) (r : Request) : ClientStarts cfg w (handle cfg fuel fd r)
  | openFile (w : W) (create : Bool) (fd : Nat) (path : Path) (pid : Pid) :
      ClientStarts cfg w (openFile create fd path pid)

end FileServer
