import FileServer.Proof.Sequential.EvictionOrder

/-!
# Who may use a file

The check of `fileOpenCheck` against the opens and closes of the run.
-/

namespace FileServer
open Program

inductive ClientEvent where
  | opened (f : FileId) (pid : Pid)
  | closed (f : FileId) (pid : Pid)
deriving DecidableEq, Repr

def ClientEvent.file : ClientEvent → FileId
  | .opened f _ | .closed f _ => f

/-- The successful opens and closes among the requests. -/
def Store.clientEvents (cfg : Config) (σ : Store) : Request → List ClientEvent
  | .fileOpen path pid => match σ.lookup cfg path with
      | .ok (some f) => [.opened f pid]
      | _ => []
  | .fileClose path pid => match σ.lookup cfg path with
      | .ok (some f) => [.closed f pid]
      | _ => []
  | _ => []

/-- Runs with the opens and closes so far. -/
abbrev AccessLog (W : Type) (cfg : Config) (meets : Store → Request → Prop) :
    List ClientEvent → Server W → Prop :=
  Traced W cfg meets (fun log σ _ r => log ++ σ.clientEvents cfg r) []

/-- `pid` has opened the record `f` and not closed it after its last open. -/
def HasOpen (log : List ClientEvent) (f : FileId) (pid : Pid) : Prop :=
  ∃ before after, log = before ++ .opened f pid :: after ∧ .closed f pid ∉ after

def ChecksAccess {W : Type} (cfg : Config) (w : W) (log : List ClientEvent) (s : Server W) : Prop :=
  ∀ path pid, (∃ file s', (server W cfg).run w (fileOpenCheck path pid) s = .ok ((0, file), s')) ↔
    ∃ f, s.store.lookup cfg path = .ok (some f) ∧ HasOpen log f pid

/-- A client that closes a file is not in its list twice. -/
def ClosesOnce (cfg : Config) (σ : Store) : Request → Prop
  | .fileClose path pid => ∀ f file, σ.lookup cfg path = .ok (some f) → σ.files f = some file →
      file.clientsOpened.count pid ≤ 1
  | _ => True

/-! ## Histories of opens and closes -/

section
variable {log : List ClientEvent} {f g : FileId} {pid pid' : Pid}

theorem hasOpen_append (e : ClientEvent) : HasOpen (log ++ [e]) f pid ↔
    e = .opened f pid ∨ HasOpen log f pid ∧ e ≠ .closed f pid := by
  constructor
  · rintro ⟨before, after, same, none⟩
    rcases List.eq_nil_or_concat after with rfl | ⟨after, last, rfl⟩
    · left
      have ends := List.append_inj_right' same rfl
      exact List.head_eq_of_cons_eq ends
    · right
      rw [List.concat_eq_append] at same none
      rw [← List.cons_append, ← List.append_assoc] at same
      have ends := List.append_inj_right' same rfl
      cases List.head_eq_of_cons_eq ends
      have start := List.append_inj_left' same rfl
      rw [List.mem_append, not_or] at none
      exact ⟨⟨before, after, start, none.1⟩, fun closed => none.2 (by simp [closed])⟩
  · rintro (rfl | ⟨⟨before, after, rfl, none⟩, other⟩)
    · exact ⟨log, [], rfl, List.not_mem_nil⟩
    · refine ⟨before, after ++ [e], by simp, fun mem => ?_⟩
      rcases List.mem_append.mp mem with old | new
      · exact none old
      · exact other (List.mem_singleton.mp new).symm

theorem hasOpen_opened : HasOpen (log ++ [.opened g pid']) f pid ↔
    g = f ∧ pid' = pid ∨ HasOpen log f pid := by
  rw [hasOpen_append]
  simp

theorem hasOpen_closed : HasOpen (log ++ [.closed g pid']) f pid ↔
    HasOpen log f pid ∧ ¬(g = f ∧ pid' = pid) := by
  rw [hasOpen_append]
  simp

theorem HasOpen.mem (has : HasOpen log f pid) : .opened f pid ∈ log := by
  obtain ⟨before, after, rfl, -⟩ := has
  simp

end

/-! ## The lists of clients -/

/-- The list of every recorded file holds the clients that have it open. -/
structure ListsOpeners (log : List ClientEvent) (σ : Store) : Prop where
  lists : ∀ f ∈ σ.recorded, ∀ file, σ.files f = some file →
    ∀ pid, pid ∈ file.clientsOpened ↔ HasOpen log f pid
  known : ∀ e ∈ log, e.file < σ.next

section
variable {W : Type} {cfg : Config} {w : W} {s s' : Server W} {log : List ClientEvent} {f : FileId}
  {file : MemFile} {r : Request} {fuel fd : Nat} {path : Path} {pid : Pid}

theorem checksAccess_iff (idle : Idle cfg s) (w : W) : ChecksAccess cfg w log s ↔
    ∀ path f file, s.store.lookup cfg path = .ok (some f) → s.store.files f = some file →
      ∀ pid, pid ∈ file.clientsOpened ↔ HasOpen log f pid := by
  have passes (path : Path) (pid : Pid) {f : FileId} {file : MemFile}
      (searched : s.store.lookup cfg path = .ok (some f)) (found : s.store.files f = some file) :
      (∃ file' s', (server W cfg).run w (fileOpenCheck path pid) s = .ok ((0, file'), s')) ↔
        pid ∈ file.clientsOpened := by
    rw [idle.run_fileOpenCheck w pid searched found]
    by_cases opened : pid ∈ file.clientsOpened
    · exact iff_of_true ⟨some f, s, by simp [clientOpenSearch, opened]⟩ opened
    · refine iff_of_false ?_ opened
      simp [clientOpenSearch, opened, EPERM]
  constructor
  · intro checks path f file searched found pid
    rw [← passes path pid searched found, checks path pid, searched]
    simp
  · intro lists path pid
    rcases idle.lookup path with missing | ⟨f, file, searched, mem, found⟩
    · rw [idle.run_fileOpenCheck_missing w pid missing]
      simp [missing, ENOENT]
    · rw [passes path pid searched found, lists path f file searched found pid]
      simp [searched]

def Request.keepsClients : Request → Bool
  | .fileInit _ | .fileOpen _ _ | .fileClose _ _ => false
  | _ => true

theorem Effect.clients (effect : Effect cfg r s s') (keeps : r.keepsClients = true)
    (mem : f ∈ s'.store.recorded) (found : s'.store.files f = some file) :
    f ∈ s.store.recorded ∧ ∃ file', s.store.files f = some file' ∧
      file'.clientsOpened = file.clientsOpened := by
  rcases effect.each f mem with ⟨before, kept, -⟩ | changed
  · rw [kept] at found
    exact ⟨before, file, found, rfl⟩
  · cases changed with
    | created found' => cases keeps
    | opened recorded found₀ found' => cases keeps
    | closed recorded found₀ found' => cases keeps
    | written recorded found₀ nonempty found' =>
        cases Option.some.inj (found.symm.trans found')
        exact ⟨recorded, _, found₀, rfl⟩
    | appended recorded searched found₀ opened hasPages fits total found' =>
        cases Option.some.inj (found.symm.trans found')
        exact ⟨recorded, _, found₀, rfl⟩

theorem Store.clientEvents_keeps {σ : Store} (keeps : r.keepsClients = true) :
    σ.clientEvents cfg r = [] := by
  cases r with
  | fileOpen path pid | fileClose path pid => cases keeps
  | _ => rfl

namespace ListsOpeners

theorem later (lists : ListsOpeners log s.store)
    (next : s.store.next ≤ s'.store.next) (e : ClientEvent) (mem : e ∈ log) : e.file < s'.store.next :=
  Nat.lt_of_lt_of_le (lists.known e mem) next

theorem keep (lists : ListsOpeners log s.store) (effect : Effect cfg r s s')
    (keeps : r.keepsClients = true) (next : s.store.next ≤ s'.store.next) :
    ListsOpeners (log ++ s.store.clientEvents cfg r) s'.store := by
  rw [Store.clientEvents_keeps keeps, List.append_nil]
  refine ⟨fun f mem file found pid => ?_, lists.later next⟩
  obtain ⟨before, file', found', same⟩ := effect.clients keeps mem found
  rw [← same]
  exact lists.lists f before file' found' pid

theorem create (lists : ListsOpeners log s.store) (idle : Idle cfg s)
    (store : s'.store = s.store.create cfg path) (next : s.store.next ≤ s'.store.next) :
    ListsOpeners (log ++ s.store.clientEvents cfg (.fileInit path)) s'.store := by
  have none : s.store.clientEvents cfg (.fileInit path) = [] := rfl
  rw [none, List.append_nil]
  refine ⟨fun f mem file found pid => ?_, lists.later next⟩
  rw [store] at mem found
  rcases List.mem_cons.mp ((idle.consistent.recorded_create path).mem_iff.mp mem) with rfl | old
  · -- nobody has opened a record that did not exist
    have new : (s.store.create cfg path).files s.store.next = some ⟨[], 0, path, 0, []⟩ :=
      Function.update_self ..
    cases Option.some.inj (found.symm.trans new)
    refine iff_of_false List.not_mem_nil fun has => ?_
    exact Nat.lt_irrefl _ (lists.known _ has.mem)
  · have kept : (s.store.create cfg path).files f = s.store.files f :=
      Function.update_of_ne (idle.consistent.ne_next old) ..
    rw [kept] at found
    exact lists.lists f old file found pid

theorem update (lists : ListsOpeners log s.store) (idle : Idle cfg s) {update : List Pid → List Pid}
    (updated : Updated cfg update path s s') (event : FileId → ClientEvent)
    (about : ∀ f, (event f).file = f) (events : s.store.clientEvents cfg r =
      match s.store.lookup cfg path with
      | .ok (some f) => [event f]
      | _ => [])
    (other : ∀ f g pid, f ≠ g → (HasOpen (log ++ [event g]) f pid ↔ HasOpen log f pid))
    (self : ∀ f file, s.store.lookup cfg path = .ok (some f) → s.store.files f = some file →
      (∀ pid, pid ∈ file.clientsOpened ↔ HasOpen log f pid) →
      ∀ pid, pid ∈ update file.clientsOpened ↔ HasOpen (log ++ [event f]) f pid) :
    ListsOpeners (log ++ s.store.clientEvents cfg r) s'.store := by
  rw [events]
  cases updated with
  | missing searched store =>
      rw [searched, store]
      dsimp only
      rw [List.append_nil]
      exact lists
  | @updated f file searched mem found store =>
      rw [searched, store]
      dsimp only
      refine ⟨fun g isIn file' found' pid => ?_, fun e isIn => ?_⟩
      · by_cases same : g = f
        · subst same
          cases Option.some.inj (found'.symm.trans (Function.update_self ..))
          exact self g file searched found (lists.lists g mem file found) pid
        · have kept := (Function.update_of_ne same ..).symm.trans found'
          rw [other g f pid same]
          exact lists.lists g isIn file' kept pid
      · rcases List.mem_append.mp isIn with old | new
        · exact lists.known e old
        · cases List.mem_singleton.mp new
          rw [about]
          show f < s.store.next
          by_contra late
          cases found.symm.trans (idle.consistent.fresh f (Nat.not_lt.mp late))

end ListsOpeners

theorem mem_clientPidDelete {list : List Pid} {pid pid' : Pid} (once : list.count pid' ≤ 1) :
    pid ∈ clientPidDelete list pid' ↔ pid ∈ list ∧ pid' ≠ pid := by
  unfold clientPidDelete
  by_cases same : pid' = pid
  · subst same
    refine iff_of_false (fun mem => ?_) fun both => both.2 rfl
    have some := List.count_pos_iff.mpr mem
    rw [List.count_erase_self] at some
    omega
  · rw [List.mem_erase_of_ne (Ne.symm same)]
    exact (and_iff_left same).symm

theorem ListsOpeners.request (lists : ListsOpeners log s.store) (idle : Idle cfg s)
    (wellFormed : r.WellFormed) (once : ClosesOnce cfg s.store r)
    (completed : (server W cfg).run w (handle cfg fuel fd r) s = .ok ((), s')) :
    ListsOpeners (log ++ s.store.clientEvents cfg r) s'.store := by
  have next := run_next completed
  have effect := effect_of_run idle wellFormed completed
  cases r with
  | fileInit path =>
      exact lists.create idle ((ends_fileInit_store fd path).run completed).1 next
  | fileOpen path pid =>
      have ended : Ends False cfg w (fileOpen fd path pid) _ s := ends_fileOpen_updated fd path pid idle
      have updated := (ended.run completed).2
      refine lists.update idle updated (.opened · pid) (fun _ => rfl) rfl (fun f g pid' differ => ?_)
        fun f file searched found same pid' => ?_
      · rw [hasOpen_opened]
        simp [Ne.symm differ]
      · rw [hasOpen_opened, List.mem_cons, same pid']
        simp [eq_comm]
  | fileClose path pid =>
      have ended : Ends False cfg w (fileClose fd path pid) _ s := ends_fileClose_updated fd path pid idle
      have updated := (ended.run completed).2
      refine lists.update idle updated (.closed · pid) (fun _ => rfl) rfl (fun f g pid' differ => ?_)
        fun f file searched found same pid' => ?_
      · rw [hasOpen_closed]
        simp [Ne.symm differ]
      · rw [hasOpen_closed, mem_clientPidDelete (once f file searched found), same pid']
        simp
  | _ => exact lists.keep effect rfl next

theorem listsOpeners_of_log (logged : AccessLog W cfg (ClosesOnce cfg) log s) :
    ListsOpeners log s.store := by
  induction logged with
  | initial =>
      refine ⟨fun f mem => ?_, nofun⟩
      simp [Server.initial, memorySetup, Store.recorded] at mem
  | request before wellFormed met completed ih => exact ih.request before.served.idle wellFormed met completed

/-- Closing a file for a client that is in its list twice leaves the client its access. -/
theorem checksAccess_broken (idle : Idle cfg s)
    (completed : (server W cfg).run w (handle cfg fuel fd (.fileClose path pid)) s = .ok ((), s'))
    (twice : ¬ClosesOnce cfg s.store (.fileClose path pid)) :
    ¬ChecksAccess cfg w (log ++ s.store.clientEvents cfg (.fileClose path pid)) s' := by
  have ended : Ends False cfg w (fileClose fd path pid) _ s := ends_fileClose_updated fd path pid idle
  obtain ⟨idle', updated⟩ := ended.run completed
  simp only [ClosesOnce, not_forall, Nat.not_le] at twice
  obtain ⟨f, file, searched, found, many⟩ := twice
  have events : s.store.clientEvents cfg (.fileClose path pid) = [.closed f pid] := by
    simp [Store.clientEvents, searched]
  rw [events]
  cases updated with
  | missing missing store => cases searched.symm.trans missing
  | @updated g file' searched' mem found' store =>
      cases searched.symm.trans searched'
      cases Option.some.inj (found.symm.trans found')
      intro checks
      have lookup : s'.store.lookup cfg path = .ok (some f) := by
        rw [← searched, store]
        refine Store.lookup_paths (by rfl) (fun h => ?_) path
        by_cases same : h = f
        · subst same
          show Option.map _ (Function.update s.store.files h _ h) = _
          rw [Function.update_self, found]
          rfl
        · exact congrArg _ (Function.update_of_ne same ..)
      have here : s'.store.files f = some { file with
          clientsOpened := clientPidDelete file.clientsOpened pid } := by
        rw [store]
        exact Function.update_self ..
      have still : pid ∈ clientPidDelete file.clientsOpened pid := by
        rw [← List.count_pos_iff, clientPidDelete, List.count_erase_self]
        omega
      have has := ((checksAccess_iff idle' w).mp checks path f _ lookup here pid).mp still
      rw [hasOpen_closed] at has
      exact has.2 ⟨rfl, rfl⟩

/-- In every run in which a client closes a file only when it is in its list at most once, the check is
right in every state; and the first other close makes it wrong. -/
theorem open_access (logged : AccessLog W cfg (ClosesOnce cfg) log s) :
    (∀ w, ChecksAccess cfg w log s) ∧
    ∀ w fuel fd path pid s',
      (server W cfg).run w (handle cfg fuel fd (.fileClose path pid)) s = .ok ((), s') →
      ¬ClosesOnce cfg s.store (.fileClose path pid) →
      ¬ChecksAccess cfg w (log ++ s.store.clientEvents cfg (.fileClose path pid)) s' := by
  have idle := logged.served.idle
  refine ⟨fun w => (checksAccess_iff idle w).mpr fun path f file searched found => ?_,
    fun w fuel fd path pid s' completed twice => checksAccess_broken idle completed twice⟩
  have mem := Store.hashTbSearch_mem (Store.lookup_eq_ok.mp searched)
  exact (listsOpeners_of_log logged).lists f mem file found

end

/-! ## One close for two opens -/

def openedTwice : List Request :=
  [.fileInit [97], .fileOpen [97] 7, .fileOpen [97] 7, .fileClose [97] 7]

def accessLog (cfg : Config) (fuel : Nat) (rs : List Request) : List ClientEvent :=
  history (fun log σ _ r => log ++ σ.clientEvents cfg r) cfg fuel 0 rs [] (Server.initial Unit cfg)

theorem open_after_close :
    AccessLog Unit smallConfig (fun _ _ => True) (accessLog smallConfig 5 openedTwice)
        (reached smallConfig 5 openedTwice) ∧
      ¬ChecksAccess smallConfig () (accessLog smallConfig 5 openedTwice)
        (reached smallConfig 5 openedTwice) := by
  refine ⟨traced_reached (fun _ _ => true) (fun _ _ _ => trivial)
    (by simp [openedTwice, Request.WellFormed]) (by decide +kernel), fun checks => ?_⟩
  have log : accessLog smallConfig 5 openedTwice = [.opened 0 7, .opened 0 7] ++ [.closed 0 7] := by
    decide +kernel
  have passed : ((server Unit smallConfig).run () (fileOpenCheck [97] 7)
      (reached smallConfig 5 openedTwice)).okAnd (fun result => result.1 = (0, some 0)) = true := by
    decide +kernel
  obtain ⟨⟨r, s'⟩, ran, result⟩ := Outcome.okAnd_iff.mp passed
  cases of_decide_eq_true result
  obtain ⟨f, searched, has⟩ := (checks [97] 7).mp ⟨some 0, s', ran⟩
  have here : (reached smallConfig 5 openedTwice).store.lookup smallConfig [97] = .ok (some 0) := by
    decide +kernel
  cases searched.symm.trans here
  rw [log, hasOpen_closed] at has
  exact has.2 ⟨rfl, rfl⟩

def closesOnce (cfg : Config) (σ : Store) : Request → Bool
  | .fileClose path pid => match σ.lookup cfg path with
      | .ok (some f) => (σ.files f).all fun file => file.clientsOpened.count pid ≤ 1
      | _ => true
  | _ => true

theorem closesOnce_sound (cfg : Config) (σ : Store) (r : Request) (passed : closesOnce cfg σ r = true) :
    ClosesOnce cfg σ r := by
  cases r with
  | fileClose path pid =>
      intro f file searched found
      simpa [closesOnce, searched, found] using passed
  | _ => trivial

def openedByTwo : List Request :=
  [.fileInit [97], .fileOpen [97] 7, .fileOpen [97] 8, .fileClose [97] 7]

theorem open_access_example :
    (∀ w, ChecksAccess smallConfig w (accessLog smallConfig 5 openedByTwo)
      (reached smallConfig 5 openedByTwo)) ∧
    ∀ w fuel fd path pid s',
      (server Unit smallConfig).run w (handle smallConfig fuel fd (.fileClose path pid))
        (reached smallConfig 5 openedByTwo) = .ok ((), s') →
      ¬ClosesOnce smallConfig (reached smallConfig 5 openedByTwo).store (.fileClose path pid) →
      ¬ChecksAccess smallConfig w (accessLog smallConfig 5 openedByTwo ++
        (reached smallConfig 5 openedByTwo).store.clientEvents smallConfig (.fileClose path pid)) s' :=
  open_access (traced_reached (closesOnce smallConfig) (closesOnce_sound smallConfig)
    (by simp [openedByTwo, Request.WellFormed]) (by decide +kernel))

end FileServer
