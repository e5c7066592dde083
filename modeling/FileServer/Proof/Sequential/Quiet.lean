import FileServer.Proof.Sequential.Handlers

/-!
# Requests that leave the records alone

`Changed` says which records a completed request may have touched, and `Quiet` that it has touched none, as
`fileNRead` does.
-/

namespace FileServer
open Program

/-- What a completed request may have done to a record `g` that is in the table after it, when it has
not left it alone. -/
inductive Changed (cfg : Config) (σ σ' : Store) (g : FileId) : Request → Prop where
  | created {path} (found' : σ'.files g = some ⟨[], 0, path, 0, []⟩) :
      Changed cfg σ σ' g (.fileInit path)
  | opened {path pid file} (recorded : g ∈ σ.recorded) (found : σ.files g = some file)
      (found' : σ'.files g = some { file with clientsOpened := pid :: file.clientsOpened }) :
      Changed cfg σ σ' g (.fileOpen path pid)
  | closed {path pid file} (recorded : g ∈ σ.recorded) (found : σ.files g = some file)
      (found' : σ'.files g = some { file with
        clientsOpened := clientPidDelete file.clientsOpened pid }) :
      Changed cfg σ σ' g (.fileClose path pid)
  | written {path pid size data file pages} (recorded : g ∈ σ.recorded)
      (found : σ.files g = some file) (nonempty : 0 < size)
      (found' : σ'.files g = some { file with
        size := size, pagesN := pagesFor cfg size, pages := pages }) :
      Changed cfg σ σ' g (.fileWrite path pid size data)
  | appended {path pid n data file pages} (recorded : g ∈ σ.recorded)
      (searched : σ.lookup cfg path = .ok (some g)) (found : σ.files g = some file)
      (opened : clientOpenSearch file.clientsOpened pid = true)
      (hasPages : 0 < file.pagesN) (fits : file.size + n ≤ cfg.serverMemorySize)
      (total : file.pagesN + pages.length = appendPages cfg file.pagesN file.size n)
      (found' : σ'.files g = some (file.grown n pages)) :
      Changed cfg σ σ' g (.fileAppend path pid n data)

structure Effect {W : Type} (cfg : Config) (r : Request) (s s' : Server W) : Prop where
  idle : Idle cfg s'
  each : ∀ g ∈ s'.store.recorded,
    g ∈ s.store.recorded ∧ Kept s.store s'.store g ∨ Changed cfg s.store s'.store g r

inductive Updated {W : Type} (cfg : Config) (update : List Pid → List Pid) (path : Path)
    (s s' : Server W) : Prop where
  | missing (searched : s.store.lookup cfg path = .ok none) (store : s'.store = s.store)
  | updated {f file} (searched : s.store.lookup cfg path = .ok (some f)) (mem : f ∈ s.store.recorded)
      (found : s.store.files f = some file)
      (store : s'.store = (s.setFile f (some { file with
        clientsOpened := update file.clientsOpened })).store)

def Quiet {W : Type} (s s' : Server W) : Prop :=
  s'.owner = s.owner ∧ ∃ stack, s'.store = { s.store with fstack := stack }

section
variable {W : Type} {strict : Prop} {cfg : Config} {w : W} {s s₁ s₂ s' : Server W} {r : Request}
  {f : FileId} {file : MemFile}

namespace Quiet

theorem refl (s : Server W) : Quiet s s := ⟨rfl, s.store.fstack, rfl⟩

theorem trans (first : Quiet s s₁) (second : Quiet s₁ s₂) : Quiet s s₂ := by
  obtain ⟨owner₁, stack₁, store₁⟩ := first
  obtain ⟨owner₂, stack₂, store₂⟩ := second
  exact ⟨owner₂.trans owner₁, stack₂, by rw [store₂, store₁]⟩

theorem send (s : Server W) (fd : Nat) (msg : Msg) : Quiet s (s.send fd msg) := refl s

theorem sendAll (s : Server W) (fd : Nat) (msgs : List Msg) : Quiet s (s.sendAll fd msgs) := refl s

theorem setStack (s : Server W) (stack : FileStack) : Quiet s (s.setStack stack) :=
  ⟨rfl, stack, rfl⟩

theorem idle (quiet : Quiet s s') (idle : Idle cfg s) : Idle cfg s' := by
  obtain ⟨owner, stack, store⟩ := quiet
  refine ⟨fun m => by rw [owner]; exact idle.unlocked m, ?_⟩
  rw [store]
  exact idle.consistent.reframe _ stack

theorem effect (quiet : Quiet s s') (idle : Idle cfg s) (r : Request) : Effect cfg r s s' := by
  refine ⟨quiet.idle idle, fun g mem => ?_⟩
  obtain ⟨-, stack, store⟩ := quiet
  rw [store] at mem ⊢
  exact .inl ⟨mem, rfl, fun _ _ => rfl⟩

end Quiet

/-! ## Handlers that leave the records alone -/

theorem ends_fileStackDefragLoop (n i last : Nat) :
    Ends strict cfg w (fileStackDefragLoop n i last) (fun _ s' => Quiet s s') s := by
  induction n generalizing i last s with
  | zero => exact Quiet.refl s
  | succ n ih =>
      have onward (s₁ : Server W) (quiet : Quiet s s₁) (i last : Nat) :
          Ends strict cfg w (fileStackDefragLoop n i last) (fun _ s' => Quiet s s') s₁ :=
        wp_mono (ih i last) fun _ s' rest => quiet.trans rest
      unfold fileStackDefragLoop
      rw [ends_bind]
      refine ends_call (by simp) fun cell s₁ step => ?_
      simp only [Server.exec] at step
      split at step
      · cases step
      · cases step
        exact onward s (.refl s) (i + 1) last
      · rename_i name _
        cases step
        have quiet : Quiet s (s.setStack (s.store.fstack.dedup i name)) := .setStack s _
        rw [ends_bind]
        have cleared (s₂ : Server W) (quiet₂ : Quiet s s₂) : Ends strict cfg w (do
            call (.stackClear i)
            fileStackDefragLoop n (i + 1) last) (fun _ s' => Quiet s s') s₂ := by
          rw [ends_bind]
          refine ends_call (by simp) fun x s₃ step => ?_
          cases step
          exact onward _ (quiet₂.trans (.setStack s₂ _)) (i + 1) last
        have moved (s₂ : Server W) (quiet₂ : Quiet s s₂) : Ends strict cfg w (do
            call (.stackMove last i)
            fileStackDefragLoop n (i + 1) (last + 1)) (fun _ s' => Quiet s s') s₂ := by
          rw [ends_bind]
          refine ends_call (by simp) fun x s₃ step => ?_
          cases step
          exact onward _ (quiet₂.trans (.setStack s₂ _)) (i + 1) (last + 1)
        refine ends_hashGetFile (fun _ => cleared _ quiet) fun path found σ _ lookup => ?_
        have same := Store.hashTbSearch_src_store lookup
        rw [same, Server.setStore_self]
        cases found with
        | none => exact cleared _ quiet
        | some f => exact moved _ quiet

theorem ends_fileStackDefrag :
    Ends strict cfg w fileStackDefrag (fun _ s' => Quiet s s') s := by
  unfold fileStackDefrag
  rw [ends_bind, ends_lock]
  intro _ free
  rw [ends_bind]
  refine ends_call (by simp) fun max s₁ step => ?_
  cases step
  rw [ends_bind]
  refine wp_mono (ends_fileStackDefragLoop _ 0 0) ?_
  rintro last s₂ ⟨owner, stack, store⟩
  rw [ends_bind]
  refine ends_call (by simp) fun x s₃ step => ?_
  cases step
  rw [ends_unlock]
  intro _
  refine ⟨?_, { s₂.store.fstack with top := last }, ?_⟩
  · show Function.update s₂.owner .filestack none = s.owner
    rw [owner]
    exact congrArg Server.owner (Server.setOwner_release s (some w) free)
  · show ({ s₂.store with fstack := _ } : Store) = _
    rw [store]
    rfl

theorem ends_arrayCopy (n i : Nat) :
    Ends strict cfg w (arrayCopy n i) (fun names s' => names.length = n ∧ s' = s) s := by
  induction n generalizing i with
  | zero => exact ⟨rfl, rfl⟩
  | succ n ih =>
      unfold arrayCopy
      rw [ends_bind]
      refine ends_call (by simp) fun cell s₁ step => ?_
      simp only [Server.exec] at step
      cases entry : s.store.fstack.stack[i]? with
      | none => simp [entry] at step
      | some name =>
          simp only [entry, Outcome.ok.injEq, Prod.mk.injEq] at step
          obtain ⟨rfl, rfl⟩ := step
          cases name with
          | none => exact ends_abort fun _ => by simp
          | some name =>
              dsimp only
              rw [ends_bind]
              exact wp_mono (ih (i + 1)) fun names s' copied => ⟨congrArg (· + 1) copied.1, copied.2⟩

theorem Idle.run_sendFile (idle : Idle cfg s) (w : W) (fd : Nat) (mem : f ∈ s.store.recorded)
    (found : s.store.files f = some file) :
    (server W cfg).run w (sendFile cfg fd f) s =
      .ok ((), s.sendAll fd (fileMessages cfg s.store.memPtr file)) := by
  have shaped := idle.consistent.shaped f file mem found nofun
  refine FileServer.run_sendFile w fd (idle.consistent.writable mem found) (idle.unlocked _)
    shaped.filled fun nonempty => ?_
  rcases shaped.geometry with empty | filled
  · exact absurd empty.2 nonempty
  · exact filled.1

theorem Idle.lookup (idle : Idle cfg s) (path : Path) : s.store.lookup cfg path = .ok none ∨
    ∃ f file, s.store.lookup cfg path = .ok (some f) ∧ f ∈ s.store.recorded ∧
      s.store.files f = some file := by
  obtain ⟨found, σ, searched⟩ := idle.consistent.search_ok path .src
  have same := Store.hashTbSearch_src_store searched
  rw [same] at searched
  cases found with
  | none => exact .inl (Store.lookup_eq_ok.mpr searched)
  | some f =>
      obtain ⟨file, alive, -⟩ := Store.hashTbSearch_alive searched
      exact .inr ⟨f, file, Store.lookup_eq_ok.mpr searched, Store.hashTbSearch_mem searched, alive⟩

def nameReply (cfg : Config) (σ : Store) (name : Path) : Outcome Fault (List Msg) :=
  if posixPathMax ≤ name.length then .fault .inputBounds
  else (σ.lookup cfg name).andThen fun
    | none => .ok []
    | some f => match σ.files f with
      | none => .fault (.deadFile f)
      | some file => match fileShortenName file.abspath with
        | none => .fault .nullString
        | some nameSent => .ok (.int (nameSent.length + 1) :: .bytes (nameSent ++ [0]) ::
            fileMessages cfg σ.memPtr file)

def sendNamed (cfg : Config) (fd : Nat) : Option FileId → Handler Unit
  | none => pure ()
  | some f => do
      lock (.file f)
      match fileShortenName (← load f).abspath with
      | none => abort .nullString
      | some nameSent =>
          writeNB fd (.int (nameSent.length + 1))
          writeNB fd (.bytes (nameSent ++ [0]))
          unlock (.file f)
          sendFile cfg fd f

theorem fileNReadLoop_succ (cfg : Config) (fd : Nat) (names : List Path) (n i : Nat) :
    fileNReadLoop cfg fd names (n + 1) i = (do
      let top ← call (.stackTop .null)
      if i < top then
        match names[i]? with
        | none => abort .stackIndex
        | some name => do
            let found ← hashGetFile (.copy name) .src
            sendNamed cfg fd found
            fileNReadLoop cfg fd names n (i + 1)) := by
  rw [fileNReadLoop]
  congr 1
  funext top
  split
  · cases names[i]? with
    | none => rfl
    | some name =>
        dsimp only
        congr 1
        funext found
        cases found with
        | none => rfl
        | some f =>
            simp only [sendNamed, LawfulMonad.bind_assoc]
            congr 1
            funext _
            congr 1
            funext file
            cases fileShortenName file.abspath with
            | none => rfl
            | some nameSent => simp only [LawfulMonad.bind_assoc]
  · rfl

theorem Idle.run_sendNamed (idle : Idle cfg s) (w : W) (fd : Nat) (mem : f ∈ s.store.recorded)
    (found : s.store.files f = some file) :
    (server W cfg).run w (sendNamed cfg fd (some f)) s = match fileShortenName file.abspath with
      | none => .fault .nullString
      | some nameSent => .ok ((), s.sendAll fd (.int (nameSent.length + 1) :: .bytes (nameSent ++ [0]) ::
          fileMessages cfg s.store.memPtr file)) := by
  obtain ⟨locked, -⟩ := idle.relock w found
  have loaded : (server W cfg).run w (load f) (s.setOwner (.file f) (some w)) =
    .ok (file, s.setOwner (.file f) (some w)) := run_load found
  rw [sendNamed, Machine.run_bind_of locked, Machine.run_bind_of loaded]
  cases fileShortenName file.abspath with
  | none => rfl
  | some nameSent =>
      have idle' := (idle.send fd (.int (nameSent.length + 1))).send fd (.bytes (nameSent ++ [0]))
      have unlocked : (server W cfg).run w (unlock (.file f))
          (((s.setOwner (.file f) (some w)).send fd (.int (nameSent.length + 1))).send fd
            (.bytes (nameSent ++ [0]))) = .ok ((), _) := (idle'.relock w found).2
      have sent := idle'.run_sendFile w fd mem found
      dsimp only
      rw [Machine.run_bind_of (run_writeNB fd _), Machine.run_bind_of (run_writeNB fd _),
        Machine.run_bind_of unlocked, sent, Server.send_sendAll, Server.send_sendAll]
      rfl

theorem Idle.run_fileNReadLoop_succ (idle : Idle cfg s) (w : W) (fd n : Nat) {names : List Path}
    {i : Nat} {name : Path} (inside : i < s.store.fstack.top) (entry : names[i]? = some name) :
    (server W cfg).run w (fileNReadLoop cfg fd names (n + 1) i) s =
      (nameReply cfg s.store name).andThen fun msgs =>
        (server W cfg).run w (fileNReadLoop cfg fd names n (i + 1)) (s.sendAll fd msgs) := by
  have top : (server W cfg).run w (call (.stackTop .null)) s = .ok (s.store.fstack.top, s) := rfl
  rw [fileNReadLoop_succ, nameReply, Machine.run_bind_of top, if_pos inside]
  simp only [entry]
  by_cases long : posixPathMax ≤ name.length
  · rw [if_pos long, Machine.run_bind, idle.run_hashGetCopy_long w long]
    rfl
  rw [if_neg long]
  rcases idle.lookup name with missing | ⟨f, file, searched, mem, found⟩
  · rw [Machine.run_bind_of (idle.run_hashGetCopy w (Nat.not_le.mp long) missing), missing]
    simp [Server.sendAll, sendNamed]
  · rw [Machine.run_bind_of (idle.run_hashGetCopy w (Nat.not_le.mp long) searched), searched,
      Machine.run_bind, idle.run_sendNamed w fd mem found]
    simp only [Outcome.andThen_ok, found]
    cases fileShortenName file.abspath <;> rfl

theorem short_of_reply {σ : Store} {name : Path} {entry : List Msg} (reply : nameReply cfg σ name = .ok entry) :
    name.length < posixPathMax := by
  by_contra long
  rw [nameReply, if_pos (Nat.not_lt.mp long)] at reply
  cases reply

theorem Idle.nameReply_cases (idle : Idle cfg s) (name : Path) :
    (∃ msgs, nameReply cfg s.store name = .ok msgs) ∨
      ∃ e, nameReply cfg s.store name = .fault e ∧ e ≠ .pageIndex := by
  unfold nameReply
  by_cases long : posixPathMax ≤ name.length
  · exact .inr ⟨_, if_pos long, by simp⟩
  rw [if_neg long]
  rcases idle.lookup name with missing | ⟨f, file, searched, -, found⟩
  · rw [missing]
    exact .inl ⟨[], rfl⟩
  · rw [searched, Outcome.andThen_ok]
    simp only [found]
    cases fileShortenName file.abspath with
    | none => exact .inr ⟨_, rfl, by simp⟩
    | some nameSent => exact .inl ⟨_, rfl⟩

theorem ends_fileNReadLoop (fd : Nat) (names : List Path) (n i : Nat) (idle : Idle cfg s) :
    Ends strict cfg w (fileNReadLoop cfg fd names n i) (fun _ s' => Quiet s s') s := by
  induction n generalizing i s with
  | zero => exact Quiet.refl s
  | succ n ih =>
      by_cases inside : i < s.store.fstack.top
      · cases entry : names[i]? with
        | none =>
            unfold fileNReadLoop
            rw [ends_bind]
            refine ends_call (by simp) fun top s₁ step => ?_
            cases step
            rw [if_pos inside]
            simp only [entry]
            exact ends_abort fun _ => by simp
        | some name =>
            have round := idle.run_fileNReadLoop_succ w fd n inside entry
            rcases idle.nameReply_cases name with ⟨msgs, reply⟩ | ⟨e, failed, tolerated⟩
            · rw [reply, Outcome.andThen_ok] at round
              have quiet := Quiet.sendAll s fd msgs
              rw [ends_congr_run round]
              exact wp_mono (ih (i + 1) (quiet.idle idle)) fun _ s' rest => quiet.trans rest
            · rw [failed] at round
              exact ends_of_fault round fun _ => tolerated
      · unfold fileNReadLoop
        rw [ends_bind]
        refine ends_call (by simp) fun top s₁ step => ?_
        cases step
        rw [if_neg inside]
        exact Quiet.refl s

def fileNReadStart (fileNum : Int) (rand : Nat → Nat) : Handler (List Path × Int) := do
  fileStackDefrag
  lock .filestack
  let arrS ← call (.stackTop .null)
  let names ← arrayRandomPermutation rand arrS
  unlock .filestack
  let fileNum ← if fileNum = 0 then (do return ((← call (.stackTop .null)) : Int)) else pure fileNum
  return (names, fileNum)

theorem fileNRead_split (cfg : Config) (fd : Nat) (fileNum : Int) (rand : Nat → Nat) :
    fileNRead cfg fd fileNum rand = (do
      let (names, fileNum) ← fileNReadStart fileNum rand
      fileNReadLoop cfg fd names fileNum.toNat 0
      writeNB fd (.int 0)) := by
  by_cases all : fileNum = 0 <;>
    simp only [fileNRead, fileNReadStart, all, if_true, if_false, LawfulMonad.bind_assoc, pure_bind]

theorem ends_fileNReadStart (fileNum : Int) (rand : Nat → Nat) :
    Ends strict cfg w (fileNReadStart fileNum rand) (fun _ s' => Quiet s s') s := by
  unfold fileNReadStart
  rw [ends_bind]
  refine wp_mono ends_fileStackDefrag fun _ s₁ quiet₁ => ?_
  rw [ends_bind, ends_lock]
  intro _ free
  rw [ends_bind]
  refine ends_call (by simp) fun arrS s₂ step => ?_
  cases step
  rw [ends_bind]
  unfold arrayRandomPermutation
  rw [ends_bind]
  refine wp_mono (ends_arrayCopy _ 0) ?_
  rintro names _ ⟨-, rfl⟩
  show Ends strict cfg w (unlock .filestack >>= _) _ _
  rw [ends_bind, ends_unlock]
  intro _
  rw [Server.setOwner_release s₁ (some w) free]
  by_cases all : fileNum = 0
  · dsimp only
    rw [if_pos all, ends_bind, ends_bind]
    refine ends_call (by simp) fun top s₂ step => ?_
    cases step
    exact quiet₁
  · dsimp only
    rw [if_neg all]
    exact quiet₁

theorem ends_fileNRead (fd : Nat) (fileNum : Int) (rand : Nat → Nat) (idle : Idle cfg s) :
    Ends strict cfg w (fileNRead cfg fd fileNum rand) (fun _ s' => Quiet s s') s := by
  rw [fileNRead_split, ends_bind]
  refine wp_mono (ends_fileNReadStart fileNum rand) fun (names, fileNum) s₁ quiet₁ => ?_
  rw [ends_bind]
  refine wp_mono (ends_fileNReadLoop fd names _ 0 (quiet₁.idle idle)) fun _ s₂ quiet₂ => ?_
  rw [ends_writeNB]
  exact (quiet₁.trans quiet₂).trans (.send s₂ fd _)

end

end FileServer
