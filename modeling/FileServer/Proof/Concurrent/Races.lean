import FileServer.Proof.Concurrent.Exclusive
import FileServer.Proof.Concurrent.Lifetime

/-!
# Accesses of two workers to the same data

Two workers get at the same data at the same time only where neither writes it, but for `FStack->top`,
which `fileNRead` reads without a mutex.
-/

namespace FileServer
open Program

/-- What is shared: of a record, the fields that change, `abspath` and the mutex. -/
inductive Loc where
  | table
  | pageList
  | stackCells
  | stackTop
  | counter
  | record (f : FileId)
  | name (f : FileId)
  | mutex (f : FileId)
  | page (page : Nat)
deriving DecidableEq

def Loc.guard : Loc → Option Mutex
  | .table => some .hashTB
  | .pageList => some .pages
  | .stackCells | .stackTop => some .filestack
  | .counter => some .fileN
  | .record f => some (.file f)
  | _ => none

/-- A record that `malloc` has just returned is not shared. -/
def Op.Writes : Op → Loc → Prop
  | .store f _, l => l = .record f
  | .free f, l => l = .record f ∨ l = .name f ∨ l = .mutex f
  | .hashTbAdd _, l | .hashTbSearch _ .del, l => l = .table
  | .pageTake, l | .pageAdd _, l => l = .pageList
  | .memcpy page _ _ _, l => l = .page page
  | .fileNIncrease _, l | .fileNDecrease, l => l = .counter
  | .stackGetTop _, l | .stackPush _, l => l = .stackCells ∨ l = .stackTop
  | .stackDedup _, l | .stackMove _ _, l | .stackClear _, l => l = .stackCells
  | .stackSetTop _, l => l = .stackTop
  | _, _ => False

def CStr.ReadsName (str : CStr) (l : Loc) : Prop := ∃ f, str.record = some f ∧ l = .name f

/-- A search may compare the names of all records in the table. -/
def Store.SearchReads (σ : Store) (l : Loc) : Prop := l = .table ∨ ∃ f ∈ σ.recorded, l = .name f

def Op.Reads (σ : Store) : Op → Loc → Prop
  | .lock (.file f), l | .unlock (.file f), l => l = .mutex f
  | .load f, l => l = .record f ∨ l = .name f
  | .hashTbAdd f, l => l = .table ∨ l = .name f
  | .hashTbSearch str _, l | .stackGetTop str, l => str.ReadsName l ∨ σ.SearchReads l
  | .stackPush str, l => str.ReadsName l
  | .memRead page _, l => l = .page page
  | .stackTop _, l => l = .stackTop
  | .stackCell _, l => l = .stackCells
  | _, _ => False

def Op.Touches (σ : Store) (o : Op) (l : Loc) : Prop := o.Reads σ l ∨ o.Writes l

def Races {W : Type} (s : System Op Op.Resp W (Server W)) (w v : W) (l : Loc) : Prop :=
  ∃ o next o' next', s.threads w = .op o next ∧ s.threads v = .op o' next' ∧ o.Writes l ∧
    o'.Touches s.state.store l

section
variable {σ : Store} {o : Op} {l : Loc} {m : Mutex} {f : FileId}

theorem guard_of_writes (writes : o.Writes l) (kept : ∀ f, o ≠ .free f) :
    (∃ m, l.guard = some m ∧ m ∈ o.guards) ∨
      ∃ page offset input size, o = .memcpy page offset input size ∧ l = .page page := by
  cases o with
  | free f => exact absurd rfl (kept f)
  | memcpy page offset input size => exact .inr ⟨page, offset, input, size, rfl, writes⟩
  | hashTbSearch str flag =>
      cases flag with
      | src => exact writes.elim
      | del =>
          left
          cases writes
          cases str <;> exact ⟨_, rfl, List.mem_cons_self⟩
  | stackGetTop str =>
      left
      rcases writes with rfl | rfl <;> exact ⟨.filestack, rfl, by simp⟩
  | stackPush str =>
      left
      rcases writes with rfl | rfl <;> exact ⟨.filestack, rfl, by simp⟩
  | store f field | hashTbAdd f | pageTake | pageAdd page | fileNIncrease max | fileNDecrease
  | stackDedup i | stackMove last i | stackClear i | stackSetTop top =>
      left
      cases writes
      exact ⟨_, rfl, List.mem_cons_self⟩
  | _ => exact writes.elim

theorem guard_of_touches (touches : o.Touches σ l) (guard : l.guard = some m)
    (kept : ∀ f, o ≠ .free f) : m ∈ o.guards ∨ l = .stackTop ∧ ∃ str, o = .stackTop str := by
  rcases touches with reads | writes
  · cases o with
    | lock m' =>
        cases m' with
        | file f =>
            cases reads
            cases guard
        | _ => exact reads.elim
    | unlock m' =>
        cases m' with
        | file f =>
            cases reads
            cases guard
        | _ => exact reads.elim
    | load f =>
        rcases reads with rfl | rfl <;> cases guard
        exact .inl List.mem_cons_self
    | hashTbAdd f =>
        rcases reads with rfl | rfl <;> cases guard
        exact .inl List.mem_cons_self
    | hashTbSearch str flag =>
        left
        rcases reads with ⟨f, -, rfl⟩ | rfl | ⟨f, -, rfl⟩ <;> cases guard
        cases flag <;> cases str <;> exact List.mem_cons_self
    | stackGetTop str =>
        left
        rcases reads with ⟨f, -, rfl⟩ | rfl | ⟨f, -, rfl⟩ <;> cases guard
        exact List.mem_cons_self
    | stackPush str =>
        obtain ⟨f, -, rfl⟩ := reads
        cases guard
    | memRead page size =>
        cases reads
        cases guard
    | stackTop str => exact .inr ⟨reads, str, rfl⟩
    | stackCell i =>
        cases reads
        cases guard
        exact .inl List.mem_cons_self
    | _ => exact reads.elim
  · rcases guard_of_writes writes kept with ⟨m', guard', held⟩ | ⟨page, _, _, _, -, rfl⟩
    · cases guard.symm.trans guard'
      exact .inl held
    · cases guard

theorem record_of_touches (touches : o.Touches σ l)
    (part : l = .record f ∨ l = .name f ∨ l = .mutex f) : o.record = some f ∨ f ∈ σ.recorded := by
  have named {str : CStr} (reads : str.ReadsName l) : str.record = some f := by
    obtain ⟨f', record, rfl⟩ := reads
    rcases part with wrong | same | wrong
    · cases wrong
    · cases same
      exact record
    · cases wrong
  have searched (reads : σ.SearchReads l) : f ∈ σ.recorded := by
    rcases reads with rfl | ⟨f', recorded, rfl⟩
    · rcases part with wrong | wrong | wrong <;> cases wrong
    · rcases part with wrong | same | wrong
      · cases wrong
      · cases same
        exact recorded
      · cases wrong
  have other (shared : ∀ f, l ≠ .record f ∧ l ≠ .name f ∧ l ≠ .mutex f) : False := by
    rcases part with same | same | same
    · exact (shared f).1 same
    · exact (shared f).2.1 same
    · exact (shared f).2.2 same
  rcases touches with reads | writes
  · cases o with
    | lock m =>
        cases m with
        | file f' =>
            cases reads
            rcases part with wrong | wrong | same
            · cases wrong
            · cases wrong
            · cases same
              exact .inl rfl
        | _ => exact reads.elim
    | unlock m =>
        cases m with
        | file f' =>
            cases reads
            rcases part with wrong | wrong | same
            · cases wrong
            · cases wrong
            · cases same
              exact .inl rfl
        | _ => exact reads.elim
    | load f' =>
        left
        rcases reads with rfl | rfl <;> rcases part with same | same | same <;> cases same <;> rfl
    | hashTbAdd f' =>
        rcases reads with rfl | rfl
        · exact (other (by simp)).elim
        · left
          rcases part with same | same | same <;> cases same
          rfl
    | hashTbSearch str flag => exact reads.imp named searched
    | stackGetTop str => exact reads.imp named searched
    | stackPush str => exact .inl (named reads)
    | memRead page size =>
        cases reads
        exact (other (by simp)).elim
    | stackTop str =>
        cases reads
        exact (other (by simp)).elim
    | stackCell i =>
        cases reads
        exact (other (by simp)).elim
    | _ => exact reads.elim
  · cases o with
    | store f' field =>
        cases writes
        rcases part with same | wrong | wrong
        · cases same
          exact .inl rfl
        · cases wrong
        · cases wrong
    | free f' =>
        left
        rcases writes with rfl | rfl | rfl <;> rcases part with same | same | same <;> cases same <;> rfl
    | hashTbSearch str flag =>
        cases flag with
        | src => exact writes.elim
        | del =>
            cases writes
            exact (other (by simp)).elim
    | stackGetTop str =>
        rcases writes with rfl | rfl <;> exact (other (by simp)).elim
    | stackPush str =>
        rcases writes with rfl | rfl <;> exact (other (by simp)).elim
    | hashTbAdd f' | pageTake | pageAdd page | memcpy page offset input size | fileNIncrease max
    | fileNDecrease | stackDedup i | stackMove last i | stackClear i | stackSetTop top =>
        cases writes
        exact (other (by simp)).elim
    | _ => exact writes.elim

end

structure HeldAlive {W : Type} (G : W → Hand × Grip) (s : Server W) : Prop where
  held : ∀ w f, .file f ∈ (G w).2.locks → s.store.files f ≠ none
  doomed : ∀ w f, (G w).1.doomed = some f → ∀ v, v ≠ w → .file f ∉ (G v).2.locks

theorem Grip.mem_after_locks {g : Grip} {o : Op} {x : o.Resp} {m : Mutex}
    (held : m ∈ (g.after o x).locks) : m ∈ g.locks ∨ o = .lock m := by
  cases o with
  | lock m' =>
      rcases List.mem_cons.mp held with rfl | before
      · exact .inr rfl
      · exact .inl before
  | unlock m' =>
      left
      cases m' <;> exact List.mem_of_mem_erase held
  | _ => exact .inl held

section
variable {W : Type} [DecidableEq W] {cfg : Config} {w : W} {s : System Op Op.Resp W (Server W)}
  {G : W → Hand × Grip} {o : Op} {next : o.Resp → Handler Unit} {x : o.Resp} {state : Server W}

theorem HeldAlive.exec (heldAlive : HeldAlive G s.state) (exclusive : Exclusive cfg G s.state)
    (alive : Alive (Prod.fst ∘ G) s) (action : s.threads w = .op o next)
    (allowed : (works cfg).pre (G w) o) (step : Server.exec cfg w o s.state = .ok (x, state)) :
    HeldAlive (Function.update G w ((G w).1.after o x, (G w).2.after o x)) state := by
  have before {v : W} {m : Mutex} (held : m ∈ (Function.update G w
      ((G w).1.after o x, (G w).2.after o x) v).2.locks) :
      m ∈ (G v).2.locks ∨ v = w ∧ o = .lock m := by
    by_cases same : v = w
    · subst same
      rw [Function.update_self] at held
      exact (Grip.mem_after_locks held).imp_right fun taken => ⟨rfl, taken⟩
    · rw [Function.update_of_ne same] at held
      exact .inl held
  refine ⟨fun v f held gone => ?_, fun v f doomed u other held => ?_⟩
  · rcases before held with mine | ⟨rfl, rfl⟩
    · rcases exec_files step gone with dead | rfl
      · exact heldAlive.held v f mine dead
      · have doomed : (G w).1.doomed = some f := allowed.1.2.1
        by_cases same : v = w
        · subst same
          rw [← exclusive.locks] at mine
          exact exclusive.inHand.again v (allowed.1.2.2 mine)
        · exact heldAlive.doomed w f doomed v same mine
    · obtain ⟨live, -, rfl⟩ := exec_lock step
      exact live gone
  · have was : (G v).1.doomed = some f ∨
        v = w ∧ ∃ str, o = .hashTbSearch str .del ∧ str.record = some f := by
      by_cases same : v = w
      · subst same
        rw [Function.update_self] at doomed
        exact (Hand.after_doomed doomed).imp And.left fun now => ⟨rfl, now⟩
      · rw [Function.update_of_ne same] at doomed
        exact .inl doomed
    rcases was with was | ⟨rfl, str, rfl, record⟩
    · rcases before held with mine | ⟨rfl, rfl⟩
      · exact heldAlive.doomed v f was u other mine
      · refine (alive.doomed v f was).2.2 u other ?_
        rw [action]
        exact .inl rfl
    · rw [Function.update_of_ne other] at held
      cases str with
      | abspath f' =>
          cases record
          exact exclusive.apart other held (allowed.2.1 (.file f) (by simp))
      | _ => cases record

end

/-- Where every deleted record is known to the worker alone that deletes it. -/
structure Orderly {W : Type} (cfg : Config) (G : W → Hand × Grip) (s : System Op Op.Resp W (Server W)) :
    Prop where
  exclusive : Exclusive cfg G s.state
  alive : Alive (Prod.fst ∘ G) s
  heldAlive : HeldAlive G s.state
  conducted : ∀ w, wp (conduct cfg False) (s.threads w) (fun _ h => h.locks = []) (G w).1

namespace Orderly
variable {W : Type} {cfg : Config} {w : W} {s : System Op Op.Resp W (Server W)} {G : W → Hand × Grip}

theorem initial (W : Type) (cfg : Config) :
    Orderly cfg (fun _ : W => (.empty, .empty)) ⟨fun _ => .ret (), Server.initial W cfg⟩ := by
  refine ⟨Exclusive.initial cfg, Alive.initial cfg, ⟨?_, ?_⟩, fun _ => rfl⟩
  · intro w f held
    cases held
  · intro w f doomed
    cases doomed

variable [DecidableEq W]

theorem start {p : Handler Unit} (orderly : Orderly cfg G s) (idle : rests (G w))
    (starts : ClientStarts cfg w p) :
    Orderly cfg (Function.update G w (.empty, .empty)) (s.set w p s.state) := by
  have either (v : W) : Function.update G w (Hand.empty, Grip.empty) v = (.empty, .empty) ∨
      Function.update G w (Hand.empty, Grip.empty) v = G v := by
    by_cases same : v = w
    · subst same
      exact .inl (Function.update_self ..)
    · exact .inr (Function.update_of_ne same ..)
  refine ⟨orderly.exclusive.start idle, ?_, ⟨fun v f held => ?_, fun v f doomed u other held => ?_⟩,
    fun v => ?_⟩
  · rw [Function.comp_update]
    exact orderly.alive.start (wp_client starts)
  · rcases either v with fresh | same
    · rw [fresh] at held
      cases held
    · rw [same] at held
      exact orderly.heldAlive.held v f held
  · rcases either v with fresh | same
    · rw [fresh] at doomed
      cases doomed
    · rcases either u with fresh | same'
      · rw [fresh] at held
        cases held
      · rw [same] at doomed
        rw [same'] at held
        exact orderly.heldAlive.doomed v f doomed u other held
  · by_cases same : v = w
    · subst same
      rw [System.set_threads_self, Function.update_self]
      exact wp_client starts
    · rw [System.set_threads_of_ne _ _ _ same, Function.update_of_ne same]
      exact orderly.conducted v

theorem exec {o : Op} {next : o.Resp → Handler Unit} {x : o.Resp} {state : Server W}
    (orderly : Orderly cfg G s) (action : s.threads w = .op o next) (alone : DeletesAlone cfg s w)
    (allowed : (works cfg).pre (G w) o) (step : Server.exec cfg w o s.state = .ok (x, state)) :
    Orderly cfg (Function.update G w ((G w).1.after o x, (G w).2.after o x))
      (s.set w (next x) state) := by
  have safe := safe_after (orderly.conducted w) action x
  refine ⟨(orderly.exclusive.exec allowed step).2, ?_,
    orderly.heldAlive.exec orderly.exclusive orderly.alive action allowed step, fun v => ?_⟩
  · rw [Function.comp_update]
    exact orderly.alive.exec orderly.exclusive.inHand safe action alone allowed.1 step
  · by_cases same : v = w
    · subst same
      rw [System.set_threads_self, Function.update_self]
      exact safe
    · rw [System.set_threads_of_ne _ _ _ same, Function.update_of_ne same]
      exact orderly.conducted v

theorem preserved (W : Type) [DecidableEq W] (cfg : Config) :
    Machine.Preserved (server W cfg) (ClientStarts cfg) (DeletesAlone cfg) (Server.initial W cfg)
      (works cfg) rests (Orderly cfg) where
  init := ⟨_, initial W cfg, fun _ => ⟨rfl, rfl, rfl⟩⟩
  start _ _ _ _ orderly _ done allowed := ⟨_, orderly.start done allowed, works_client allowed⟩
  exec _ _ _ _ _ _ _ orderly _ action alone allowed step :=
    ⟨_, (orderly.exclusive.exec allowed step).1, orderly.exec action alone allowed step⟩

end Orderly

/-! ## Who holds what is touched -/

section
variable {W : Type} {cfg : Config} {w v : W} {s : System Op Op.Resp W (Server W)}
  {G : W → Hand × Grip} {o : Op} {m : Mutex} {page : Nat}

theorem Grip.touches_page {g : Grip} (allowed : g.allows o) {σ : Store}
    (touches : o.Touches σ (.page page)) : ∃ f file, g.seen = some (f, file) ∧ page ∈ file.pages := by
  have seen (mem : page ∈ g.pagesSeen) : ∃ f file, g.seen = some (f, file) ∧ page ∈ file.pages := by
    cases known : g.seen with
    | none =>
        rw [pagesSeen, known] at mem
        cases mem
    | some seen =>
        rw [pagesSeen, known] at mem
        exact ⟨seen.1, seen.2, rfl, mem⟩
  rcases touches with reads | writes
  · cases o with
    | memRead page' size =>
        cases reads
        exact seen allowed.2
    | lock m => cases m <;> cases reads
    | unlock m => cases m <;> cases reads
    | load f | hashTbAdd f => rcases reads with wrong | wrong <;> cases wrong
    | hashTbSearch str flag => rcases reads with ⟨f, -, wrong⟩ | wrong | ⟨f, -, wrong⟩ <;> cases wrong
    | stackGetTop str => rcases reads with ⟨f, -, wrong⟩ | wrong | ⟨f, -, wrong⟩ <;> cases wrong
    | stackPush str =>
        obtain ⟨f, -, wrong⟩ := reads
        cases wrong
    | _ => cases reads
  · cases o with
    | memcpy page' offset input size =>
        cases writes
        exact seen allowed.2
    | hashTbSearch str flag => cases flag <;> cases writes
    | free f => rcases writes with wrong | wrong | wrong <;> cases wrong
    | stackGetTop str => rcases writes with wrong | wrong <;> cases wrong
    | stackPush str => rcases writes with wrong | wrong <;> cases wrong
    | _ => cases writes

theorem Exclusive.holds_guards (exclusive : Exclusive cfg G s.state) (allowed : (works cfg).pre (G w) o)
    (guards : m ∈ o.guards) : s.state.owner m = some w :=
  exclusive.owner.mpr (allowed.2.1 m guards)

theorem Exclusive.holds_page (exclusive : Exclusive cfg G s.state) (allowed : (works cfg).pre (G w) o)
    (touches : o.Touches s.state.store (.page page)) : ∃ f, s.state.owner (.file f) = some w ∧
      ∀ file, s.state.store.files f = some file → page ∈ file.pages := by
  obtain ⟨f, file, seen, mem⟩ := Grip.touches_page allowed.2 touches
  obtain ⟨held, stays⟩ := exclusive.owned.seen w f file seen
  refine ⟨f, exclusive.owner.mpr held, fun file' found => ?_⟩
  rw [stays file' found]
  exact mem

/-- Whatever the interleaving, a worker that is about to get at something holds the mutex for it, unless
it frees a record that it has taken out of the table or reads `FStack->top`. -/
theorem lock_discipline {W : Type} [DecidableEq W] {cfg : Config} {s : System Op Op.Resp W (Server W)}
    (reachable : (server W cfg).Reachable (ClientStarts cfg) (fun _ _ => True)
      (Server.initial W cfg) s) {w : W} {o : Op} {next : o.Resp → Handler Unit}
    (action : s.threads w = .op o next) :
    (∀ l m, o.Touches s.state.store l → l.guard = some m → s.state.owner m = some w ∨
      (∃ f, o = .free f) ∨ l = .stackTop ∧ ∃ str, o = .stackTop str) ∧
    ∀ page, o.Touches s.state.store (.page page) → ∃ f, s.state.owner (.file f) = some w ∧
      ∀ file, s.state.store.files f = some file → page ∈ file.pages := by
  obtain ⟨G, exclusive, safe⟩ := (exclusive_preserved cfg).reachable reachable
  have safe := safe w
  rw [action] at safe
  refine ⟨fun l m touches guard => ?_, fun page touches => exclusive.holds_page safe.1 touches⟩
  by_cases frees : ∃ f, o = .free f
  · exact .inr (.inl frees)
  · rcases guard_of_touches touches guard fun f same => frees ⟨f, same⟩ with held | unguarded
    · exact .inl (exclusive.holds_guards safe.1 held)
    · exact .inr (.inr unguarded)

end

/-! ## One file filled while another one grows, seen from their mutexes -/

def storesNext (s : System Op Op.Resp Bool (Server Bool)) (w : Bool) (f : FileId) : Bool :=
  match (s.threads w).next? with
  | some (.store g _) => g = f
  | _ => false

theorem store_of_next {s : System Op Op.Resp Bool (Server Bool)} {w : Bool} {f : FileId}
    (passes : storesNext s w f = true) : ∃ field next, s.threads w = .op (.store f field) next := by
  unfold storesNext at passes
  split at passes
  · rename_i g field action
    obtain ⟨next, action⟩ := next?_eq_some action
    rw [of_decide_eq_true passes] at action
    exact ⟨field, next, action⟩
  · cases passes

theorem lock_discipline_example : ∃ s : System Op Op.Resp Bool (Server Bool),
    s.state.owner (.file 0) = some true ∧ s.state.owner (.file 1) = some false := by
  have run : ∃ s, (server Bool smallConfig).Reachable (ClientStarts smallConfig)
      (fun _ _ => True) (Server.initial Bool smallConfig) s ∧
        (storesNext s true 0 && storesNext s false 1) = true :=
    Machine.Reachable.of_schedule (fun _ _ => true) (fun _ _ _ => trivial) fillsAndGrows_starts
      (by decide +kernel)
  obtain ⟨s, reachable, both⟩ := run
  obtain ⟨first, second⟩ := Bool.and_eq_true_iff.mp both
  obtain ⟨field, next, action⟩ := store_of_next first
  obtain ⟨field', next', action'⟩ := store_of_next second
  refine ⟨s, ?_, ?_⟩
  · simpa using (lock_discipline reachable action).1 (.record 0) (.file 0) (.inr rfl) rfl
  · simpa using (lock_discipline reachable action').1 (.record 1) (.file 1) (.inr rfl) rfl

/-! ## Races -/

section
variable {W : Type} {cfg : Config} {w v : W} {s : System Op Op.Resp W (Server W)}
  {G : W → Hand × Grip} {o : Op} {l : Loc} {f : FileId} {page : Nat}

theorem Orderly.free_apart {next : o.Resp → Handler Unit} (orderly : Orderly cfg G s)
    (doomed : (G w).1.doomed = some f) (other : v ≠ w) (action : s.threads v = .op o next)
    (touches : o.Touches s.state.store l) (part : l = .record f ∨ l = .name f ∨ l = .mutex f) : False := by
  obtain ⟨-, unrecorded, unknown⟩ := orderly.alive.doomed w f doomed
  rcases record_of_touches touches part with record | recorded
  · refine unknown v other ?_
    rw [action]
    exact .inl record
  · exact unrecorded recorded

theorem Orderly.page_apart (orderly : Orderly cfg G s) (other : v ≠ w) {o' : Op}
    (allowed : (works cfg).pre (G w) o) (allowed' : (works cfg).pre (G v) o')
    (touches : o.Touches s.state.store (.page page)) (touches' : o'.Touches s.state.store (.page page)) :
    False := by
  obtain ⟨f, file, seen, mem⟩ := Grip.touches_page allowed.2 touches
  obtain ⟨f', file', seen', mem'⟩ := Grip.touches_page allowed'.2 touches'
  obtain ⟨held, stays⟩ := orderly.exclusive.owned.seen w f file seen
  obtain ⟨held', stays'⟩ := orderly.exclusive.owned.seen v f' file' seen'
  have different : f ≠ f' := by
    rintro rfl
    exact orderly.exclusive.apart other held' held
  obtain ⟨file₁, found⟩ := Option.ne_none_iff_exists'.mp (orderly.heldAlive.held w f held)
  obtain ⟨file₂, found'⟩ := Option.ne_none_iff_exists'.mp (orderly.heldAlive.held v f' held')
  rw [← stays file₁ found] at mem
  rw [← stays' file₂ found'] at mem'
  exact orderly.exclusive.owned.pagesApart.apart f f' file₁ file₂ different found found' mem mem'

/-- As long as records are deleted by workers that alone have pointers to them, two workers race for
nothing but `FStack->top`, when one reads it while another one holds the mutex of the stack. -/
theorem race_free {W : Type} [DecidableEq W] {cfg : Config} {s : System Op Op.Resp W (Server W)}
    (reachable : (server W cfg).Reachable (ClientStarts cfg) (DeletesAlone cfg)
      (Server.initial W cfg) s) {w v : W} {l : Loc} (other : v ≠ w) (races : Races s w v l) :
    l = .stackTop ∧ (∃ str next, s.threads v = .op (.stackTop str) next) ∧
      s.state.owner .filestack = some w := by
  obtain ⟨G, orderly, safe⟩ := (Orderly.preserved W cfg).reachable reachable
  obtain ⟨o, next, o', next', action, action', writes, touches⟩ := races
  have allowed : (works cfg).pre (G w) o := by
    have safe := safe w
    rw [action] at safe
    exact safe.1
  have allowed' : (works cfg).pre (G v) o' := by
    have safe := safe v
    rw [action'] at safe
    exact safe.1
  have kept (f : FileId) : o ≠ .free f := by
    rintro rfl
    exact orderly.free_apart allowed.1.2.1 other action' touches writes
  have kept' (f : FileId) : o' ≠ .free f := by
    rintro rfl
    have part : l = .record f ∨ l = .name f ∨ l = .mutex f := by
      rcases touches with reads | part
      · exact reads.elim
      · exact part
    exact orderly.free_apart allowed'.1.2.1 other.symm action (.inr writes) part
  rcases guard_of_writes writes kept with ⟨m, guard, held⟩ | ⟨page, _, _, _, -, rfl⟩
  · have mine := orderly.exclusive.holds_guards allowed held
    rcases guard_of_touches touches guard kept' with also | ⟨rfl, str, rfl⟩
    · have its := orderly.exclusive.holds_guards allowed' also
      exact absurd (Option.some.inj (its.symm.trans mine)) other
    · cases guard
      exact ⟨rfl, ⟨str, next', action'⟩, mine⟩
  · exact (orderly.page_apart other allowed allowed' (.inr writes) touches).elim

end

/-! ## A read of `FStack->top` while another worker adds a name -/

def readsTop : List ClientMove :=
  written ++ requests smallConfig true (.fileNRead 1 id) 15 ++ searches false [98] ++ creates false ++
    requests smallConfig false (.fileWrite [98] 7 4 (ones 4)) 26

def topTest (s : System Op Op.Resp Bool (Server Bool)) : Bool :=
  match (s.threads true).next?, (s.threads false).next? with
  | some (.stackTop _), some (.stackPush _) => true
  | _, _ => false

theorem races_of_test {s : System Op Op.Resp Bool (Server Bool)} (passes : topTest s = true) :
    Races s false true .stackTop := by
  unfold topTest at passes
  split at passes
  · rename_i str name reads writes
    obtain ⟨next, reads⟩ := next?_eq_some reads
    obtain ⟨next', writes⟩ := next?_eq_some writes
    exact ⟨_, next', _, next, writes, reads, .inr rfl, .inl rfl⟩
  · cases passes

theorem race_free_example : ∃ s : System Op Op.Resp Bool (Server Bool),
    Races s false true .stackTop ∧ s.state.owner .filestack = some false := by
  have starts : ∀ m ∈ readsTop, m.startsFrom (ClientStarts smallConfig) := by
    simp only [readsTop, List.forall_mem_append]
    exact ⟨⟨⟨⟨written_starts, requests_starts _ _ _ _⟩, searches_starts _ _⟩, creates_starts _⟩,
      requests_starts _ _ _ _⟩
  have run : ∃ s, (server Bool smallConfig).Reachable (ClientStarts smallConfig)
      (DeletesAlone smallConfig) (Server.initial Bool smallConfig) s ∧ topTest s = true :=
    Machine.Reachable.of_schedule deletesAloneTest deletesAlone_of_test starts (by decide +kernel)
  obtain ⟨s, reachable, passes⟩ := run
  have races := races_of_test passes
  exact ⟨s, races, (race_free reachable (by decide) races).2.2⟩

end FileServer
