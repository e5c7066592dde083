import FileServer.Proof.Sequential.PageProgress
import FileServer.Proof.Sequential.Paging

/-!
# Requests that never wait

Exact runs of the handlers that take no page.
-/

namespace FileServer
open Program

section
variable {W : Type} {cfg : Config} {s s' : Server W} {path : Path} {pid : Pid} {f : FileId}
  {file : MemFile}

theorem Idle.search (idle : Idle cfg s) (path : Path) : ∃ found, s.store.lookup cfg path = .ok found := by
  rcases idle.lookup path with missing | ⟨f, file, searched, -⟩
  · exact ⟨_, missing⟩
  · exact ⟨_, searched⟩

theorem Idle.run_updateClients (idle : Idle cfg s) (w : W) (update : List Pid → List Pid)
    (found : s.store.files f = some file) :
    (server W cfg).run w (do
      lock (.file f)
      let file ← load f
      store f (.clientsOpened (update file.clientsOpened))
      unlock (.file f)) s =
      .ok ((), s.setFile f (some { file with clientsOpened := update file.clientsOpened })) := by
  have loaded : (server W cfg).run w (load f) (s.setOwner (.file f) (some w)) =
      .ok (file, s.setOwner (.file f) (some w)) := run_load found
  have stored : (server W cfg).run w (store f (.clientsOpened (update file.clientsOpened)))
      (s.setOwner (.file f) (some w)) = .ok ((), (s.setOwner (.file f) (some w)).setFile f
        (some (file.write (.clientsOpened (update file.clientsOpened))))) := run_store _ found
  have live : ((s.setOwner (.file f) (some w)).setFile f (some (file.write
      (.clientsOpened (update file.clientsOpened))))).Live (.file f) := by
    simp [Server.Live, Server.setFile]
  rw [Machine.run_bind_of (idle.relock w found).1, Machine.run_bind_of loaded,
    Machine.run_bind_of stored, run_unlock live]
  refine congrArg (fun u => Outcome.ok ((), u)) ?_
  exact Server.setOwner_release (s.setFile f (some (file.write
    (.clientsOpened (update file.clientsOpened))))) (some w) (idle.unlocked _)

theorem Idle.run_fileOpen_found (idle : Idle cfg s) (w : W) (fd : Nat) (pid : Pid)
    (searched : s.store.lookup cfg path = .ok (some f)) (found : s.store.files f = some file) :
    (server W cfg).run w (fileOpen fd path pid) s =
      .ok ((), (s.send fd (.int 0)).setFile f
        (some { file with clientsOpened := pid :: file.clientsOpened })) := by
  unfold fileOpen
  rw [Machine.run_bind_of (idle.run_fileSearchSilent w searched)]
  show (server W cfg).run w (do
    writeNB fd (.int 0)
    let f ← deref (some f)
    lock (.file f)
    let file ← load f
    store f (.clientsOpened (pid :: file.clientsOpened))
    unlock (.file f)) s = _
  rw [Machine.run_bind_of (run_writeNB fd _), Machine.run_bind_of (run_deref_some f)]
  exact (idle.send fd _).run_updateClients w (pid :: ·) found

theorem Idle.run_fileClose_found (idle : Idle cfg s) (w : W) (fd : Nat) (pid : Pid)
    (searched : s.store.lookup cfg path = .ok (some f)) (found : s.store.files f = some file) :
    (server W cfg).run w (fileClose fd path pid) s =
      .ok ((), (s.send fd (.int 0)).setFile f
        (some { file with clientsOpened := clientPidDelete file.clientsOpened pid })) := by
  unfold fileClose
  rw [Machine.run_bind_of (idle.run_fileSearchSilent w searched)]
  show (server W cfg).run w (do
    writeNB fd (.int 0)
    lock (.file f)
    let file ← load f
    store f (.clientsOpened (clientPidDelete file.clientsOpened pid))
    unlock (.file f)) s = _
  rw [Machine.run_bind_of (run_writeNB fd _)]
  exact (idle.send fd _).run_updateClients w (clientPidDelete · pid) found

theorem Idle.run_fileSearch (idle : Idle cfg s) (w : W) (fd : Nat) {found : Option FileId}
    (searched : s.store.lookup cfg path = .ok found) :
    (server W cfg).run w (fileSearch fd path) s = .ok (if found.isSome then 0 else ENOENT,
      s.send fd (.int (if found.isSome then 0 else ENOENT))) := by
  unfold fileSearch
  rw [Machine.run_bind_of (idle.run_hashGetFile w searched),
    Machine.run_bind_of (run_writeNB fd _), Machine.run_pure]

theorem Idle.run_remove (idle : Idle cfg s) (w : W) (searched : s.store.lookup cfg path = .ok (some f))
    (found : s.store.files f = some file) : ∃ s', (server W cfg).run w (do
      let f ← deref (some f)
      lock (.file f)
      let _ ← hashGetFile (.abspath f) .del
      unlock (.file f)
      fileFree f) s = .ok ((), s') ∧ s'.sent = s.sent ∧ Removes cfg s s' f file ∧
        s'.store.fstack = s.store.fstack := by
  obtain ⟨result, σ, removed⟩ := idle.consistent.search_ok file.abspath .del
  have mem := Store.hashTbSearch_mem (Store.lookup_eq_ok.mp searched)
  have filled := (idle.consistent.shaped f file mem found nofun).filled
  have fields := hashTbSearch_table removed
  have files : (s.setStore σ).store.files f = some file := by
    show σ.files f = some file
    rw [fields]
    exact found
  have read : (s.setOwner (.file f) (some w)).readStr (.abspath f) = .ok (some file.abspath) := by
    rw [readStr_setOwner]
    exact Server.onFile_some _ found
  have searches : (server W cfg).run w (hashGetFile (.abspath f) .del) (s.setOwner (.file f) (some w)) = _ :=
    FileServer.run_hashGetFile (idle.unlocked .hashTB) read removed
  have live : ((s.setOwner (.file f) (some w)).setStore σ).Live (.file f) := by
    show σ.files f ≠ none
    rw [show σ.files f = some file from files]
    nofun
  have release : ((s.setOwner (.file f) (some w)).setStore σ).setOwner (.file f) none = s.setStore σ :=
    Server.setOwner_release (s.setStore σ) (some w) (idle.unlocked _)
  obtain ⟨s', freed, reached⟩ : ∃ s', (server W cfg).run w (fileFree f) (s.setStore σ) = .ok ((), s') ∧
      s' = (s.setStore σ).setStore { σ with
        files := Function.update σ.files f none
        pages := (file.pages.take file.pagesN).reverse ++ σ.pages } := by
    exact ⟨_, run_fileFree (idle.unlocked .pages) files (Nat.le_of_eq filled.symm), rfl⟩
  refine ⟨s', ?_, ?_, ⟨found, idle.unlocked _, ⟨path, searched⟩, ⟨result, ?_⟩, ?_⟩, ?_⟩
  · rw [Machine.run_bind_of (run_deref_some f), Machine.run_bind_of (idle.relock w found).1,
      Machine.run_bind_of searches, Machine.run_bind_of (run_unlock live), release, freed]
  · rw [reached]
    rfl
  · rw [removed, reached]
    exact congrArg (fun σ => Outcome.ok (result, σ)) fields
  · rw [reached, fields]
    rfl
  · rw [reached, fields]
    rfl

theorem Idle.run_fileDelete_accepted (idle : Idle cfg s) (w : W) (fd : Nat)
    (searched : s.store.lookup cfg path = .ok (some f)) (found : s.store.files f = some file)
    (accepted : openError file pid = 0) :
    ∃ s', (server W cfg).run w (fileDelete fd path pid) s = .ok ((), s') ∧
      s'.sent = s.sent ++ [(fd, .int 0)] ∧ Removes cfg (s.send fd (.int 0)) s' f file ∧
        s'.store.fstack = s.store.fstack := by
  obtain ⟨s', ran, sent, rest⟩ := (idle.send fd (.int 0)).run_remove w searched found
  refine ⟨s', ?_, sent, rest⟩
  unfold fileDelete
  rw [Machine.run_bind_of (idle.run_fileOpenCheck w pid searched found)]
  show (server W cfg).run w (do
    writeNB fd (.int (openError file pid))
    if openError file pid = 0 then
      let f ← deref (some f)
      lock (.file f)
      let _ ← hashGetFile (.abspath f) .del
      unlock (.file f)
      fileFree f) s = _
  rw [accepted, Machine.run_bind_of (run_writeNB fd _), if_pos rfl, ran]

theorem Idle.run_fileInit (idle : Idle cfg s) (w : W) (fd : Nat) (path : Path) :
    (server W cfg).run w (fileInit fd path) s =
      .ok ((), (s.setStore (s.store.create cfg path)).send fd (.int 1)) := by
  obtain ⟨t, named⟩ : ∃ t, s.setStore (s.store.newFile path) = t := ⟨_, rfl⟩
  have made : (server W cfg).run w (call (.newFile path)) s = .ok (s.store.next, t) := by
    rw [← named]
    exact run_call _
  have found : t.store.files s.store.next = some ⟨[], 0, path, 0, []⟩ := by
    rw [← named]
    exact Function.update_self ..
  have free (m : Mutex) : t.owner m = none := by
    rw [← named]
    exact idle.unlocked m
  obtain ⟨u, locked⟩ : ∃ u, (t.setOwner .hashTB (some w)).setOwner (.file s.store.next) (some w) = u :=
    ⟨_, rfl⟩
  have lockedFile : (server W cfg).run w (lock (.file s.store.next)) (t.setOwner .hashTB (some w)) =
      .ok ((), u) := by
    rw [← locked]
    refine run_lock ?_ ?_
    · simp [Server.Live, found]
    · simpa using free _
  have added : (server W cfg).run w (call (.hashTbAdd s.store.next)) u =
      .ok ((), u.setStore (s.store.create cfg path)) := by
    rw [run_call, ← locked]
    refine (Server.onFile_some _ found).trans ?_
    rw [← named]
    rfl
  have here : (s.store.create cfg path).files s.store.next = some ⟨[], 0, path, 0, []⟩ :=
    Function.update_self ..
  have live : ((u.setStore (s.store.create cfg path)).setOwner .hashTB none).Live
      (.file s.store.next) := by
    simp [Server.Live, Server.setStore, here]
  unfold fileInit
  rw [Machine.run_bind_of made, Machine.run_bind_of (run_lock (m := .hashTB) trivial (free _)),
    Machine.run_bind_of lockedFile, Machine.run_bind_of added,
    Machine.run_bind_of (run_unlock (m := .hashTB) trivial), Machine.run_bind_of (run_unlock live),
    run_writeNB]
  refine congrArg (fun u => Outcome.ok ((), Server.send u fd (.int 1))) ?_
  rw [← locked, ← named]
  cases s with
  | mk store owner sent =>
      simp only [Server.setOwner, Server.setStore, Server.mk.injEq, true_and, and_true]
      funext m
      by_cases table : m = .hashTB
      · subst table
        simpa using (idle.unlocked .hashTB).symm
      · by_cases new : m = .file store.next
        · subst new
          simpa using (idle.unlocked (.file store.next)).symm
        · simp [table, new]

/-! ## Every state between requests -/

/-- Requests that take no page and look at no name on the stack. -/
def Request.prompt : Request → Bool
  | .fileRead _ _ | .fileOpen _ _ | .fileClose _ _ | .fileDelete _ _ | .fileSearch _ | .fileInit _ => true
  | _ => false

/-- What stands behind an answer: the file that has been opened if it is an accepted read, and else nothing.
The chunks are the content of the file if it has as many pages as its size takes. -/
def Store.Behind (cfg : Config) (σ : Store) (answer : Int) (rest : List Msg) : Request → Prop
  | .fileRead path pid =>
      if answer = 0 then ∃ f file chunks, σ.lookup cfg path = .ok (some f) ∧ σ.files f = some file ∧
        pid ∈ file.clientsOpened ∧ rest = .sizeT file.size :: chunks.map .bytes ∧
        chunks = fileChunks cfg σ.memPtr file ∧
        (file.pagesN = pagesFor cfg file.size → chunks.flatten = σ.content file)
      else rest = []
  | _ => rest = []

/-- The request is served to its end, and the client gets its whole answer. -/
def Completes (cfg : Config) (w : W) (fuel fd : Nat) (r : Request) (s : Server W) : Prop :=
  ∃ s' answer rest, (server W cfg).run w (handle cfg fuel fd r) s = .ok ((), s') ∧
    s'.sent = s.sent ++ (.int answer :: rest).map (fd, ·) ∧ s.store.Behind cfg answer rest r

theorem completes_of_send {r : Request} {w : W} {fuel fd : Nat} {answer : Int}
    (ran : (server W cfg).run w (handle cfg fuel fd r) s = .ok ((), s'))
    (sent : s'.sent = s.sent ++ [(fd, .int answer)])
    (refused : ∀ path pid, r = .fileRead path pid → answer ≠ 0) : Completes cfg w fuel fd r s := by
  refine ⟨s', answer, [], ran, sent, ?_⟩
  cases r with
  | fileRead path pid => exact (if_neg (refused path pid rfl)).mpr rfl
  | _ => rfl

theorem Idle.completes (idle : Idle cfg s) {r : Request} (prompt : r.prompt = true) (w : W) (fuel fd : Nat) :
    Completes cfg w fuel fd r s := by
  cases r with
  | fileRead path pid =>
      rcases idle.lookup path with missing | ⟨f, file, searched, mem, found⟩
      · exact completes_of_send (idle.run_fileRead_missing w fd pid missing) rfl fun _ _ _ => by decide
      · by_cases accepted : openError file pid = 0
        · have behind : s.store.Behind cfg 0 (fileMessages cfg s.store.memPtr file) (.fileRead path pid) := by
            rw [Store.Behind, if_pos rfl]
            have opened : pid ∈ file.clientsOpened := by
              simpa [clientOpenSearch] using openError_eq_zero.mp accepted
            exact ⟨f, file, _, searched, found, opened, rfl, rfl,
              fileChunks_content idle.consistent mem found⟩
          exact ⟨_, 0, _, idle.run_fileRead_accepted w fd searched found accepted, rfl, behind⟩
        · exact completes_of_send (idle.run_fileRead_refused w fd pid searched found accepted) rfl
            fun _ _ _ => accepted
  | fileOpen path pid =>
      rcases idle.lookup path with missing | ⟨f, file, searched, -, found⟩
      · exact completes_of_send (idle.run_fileOpen_missing w fd pid missing) rfl nofun
      · exact completes_of_send (idle.run_fileOpen_found w fd pid searched found) rfl nofun
  | fileClose path pid =>
      rcases idle.lookup path with missing | ⟨f, file, searched, -, found⟩
      · exact completes_of_send (idle.run_fileClose_missing w fd pid missing) rfl nofun
      · exact completes_of_send (idle.run_fileClose_found w fd pid searched found) rfl nofun
  | fileDelete path pid =>
      rcases idle.lookup path with missing | ⟨f, file, searched, -, found⟩
      · exact completes_of_send (idle.run_fileDelete_missing w fd pid missing) rfl nofun
      · by_cases accepted : openError file pid = 0
        · obtain ⟨s', ran, sent, -⟩ := idle.run_fileDelete_accepted w fd searched found accepted
          exact completes_of_send ran sent nofun
        · exact completes_of_send (idle.run_fileDelete_refused w fd pid searched found accepted) rfl nofun
  | fileSearch path =>
      obtain ⟨found, searched⟩ := idle.search path
      exact completes_of_send (Machine.run_bind_of (idle.run_fileSearch w fd searched) _) rfl nofun
  | fileInit path => exact completes_of_send (idle.run_fileInit w fd path) rfl nofun
  | _ => cases prompt

/-- Whatever was served before, such a request neither faults nor waits. -/
theorem prompt_completes {r : Request} (served : Served W cfg (fun _ _ => True) s) (prompt : r.prompt = true)
    (w : W) (fuel fd : Nat) : Completes cfg w fuel fd r s :=
  served.idle.completes prompt w fuel fd

end

/-- Two records of one name, the first of them deleted while its name was on the stack, and the second one
written. -/
def disorderly : List Request := [.fileInit [97], .fileInit [97], .fileOpen [97] 7, .fileWrite [97] 7 1 [5],
  .fileDelete [97] 7, .fileOpen [97] 7, .fileWrite [97] 7 1 [6]]

theorem prompt_completes_example : (reached smallConfig 5 disorderly).store.lookup smallConfig [97] = .ok (some 0) ∧
    (reached smallConfig 5 disorderly).store.files 0 = some ⟨[3], 1, [97], 1, [7]⟩ ∧
    Completes smallConfig () 0 3 (.fileRead [97] 7) (reached smallConfig 5 disorderly) ∧
    Completes smallConfig () 0 3 (.fileDelete [97] 7) (reached smallConfig 5 disorderly) := by
  have served : Served Unit smallConfig (fun _ _ => True) (reached smallConfig 5 disorderly) :=
    served_reached (by simp [disorderly, Request.WellFormed]) (fun _ _ _ => trivial) (by decide +kernel)
  exact ⟨by decide +kernel, by decide +kernel, prompt_completes served rfl () 0 3,
    prompt_completes served rfl () 0 3⟩

end FileServer
