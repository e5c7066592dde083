import FileServer.Model.WorkerFunctions
import FileServer.Proof.HashTable

/-!
# One worker alone

How each operation runs when no other worker moves, as equations of `run` and as rules for `wp`.
-/

namespace FileServer
open Program

def Server.Live {W : Type} (s : Server W) : Mutex → Prop
  | .file f => s.store.files f ≠ none
  | _ => True

namespace Server
variable {W : Type}

@[simp] theorem setOwner_store (s : Server W) (m : Mutex) (w : Option W) :
    (s.setOwner m w).store = s.store := rfl
@[simp] theorem setOwner_sent (s : Server W) (m : Mutex) (w : Option W) :
    (s.setOwner m w).sent = s.sent := rfl
@[simp] theorem setOwner_owner_self (s : Server W) (m : Mutex) (w : Option W) :
    (s.setOwner m w).owner m = w := by simp [setOwner]
@[simp] theorem setOwner_owner_of_ne (s : Server W) {m m' : Mutex} (w : Option W) (h : m' ≠ m) :
    (s.setOwner m w).owner m' = s.owner m' := by simp [setOwner, h]
@[simp] theorem setStore_store (s : Server W) (σ : Store) : (s.setStore σ).store = σ := rfl
@[simp] theorem setStore_owner (s : Server W) (σ : Store) : (s.setStore σ).owner = s.owner := rfl
@[simp] theorem setStore_sent (s : Server W) (σ : Store) : (s.setStore σ).sent = s.sent := rfl
@[simp] theorem setStore_self (s : Server W) : s.setStore s.store = s := rfl
@[simp] theorem send_store (s : Server W) (fd : Nat) (msg : Msg) : (s.send fd msg).store = s.store := rfl
@[simp] theorem send_owner (s : Server W) (fd : Nat) (msg : Msg) : (s.send fd msg).owner = s.owner := rfl
@[simp] theorem send_sent (s : Server W) (fd : Nat) (msg : Msg) :
    (s.send fd msg).sent = s.sent ++ [(fd, msg)] := rfl
@[simp] theorem setFile_owner (s : Server W) (f : FileId) (file : Option MemFile) :
    (s.setFile f file).owner = s.owner := rfl
@[simp] theorem setFile_sent (s : Server W) (f : FileId) (file : Option MemFile) :
    (s.setFile f file).sent = s.sent := rfl

theorem setOwner_release (s : Server W) {m : Mutex} (w : Option W) (free : s.owner m = none) :
    (s.setOwner m w).setOwner m none = s := by
  cases s with
  | mk store owner sent =>
      simp only [setOwner, Function.update_idem, mk.injEq, true_and, and_true]
      exact Function.update_eq_self_iff.mpr free.symm

theorem onMutex_live {α : Type} (s : Server W) (m : Mutex) (k : Outcome Fault α)
    (live : s.Live m) : s.onMutex m k = k := by
  cases m with
  | file f =>
      obtain ⟨file, found⟩ := Option.ne_none_iff_exists'.mp live
      simp [onMutex, onFile, found]
  | _ => rfl

theorem onMutex_eq_ok {α : Type} {s : Server W} {m : Mutex} {k : Outcome Fault α} {a : α} :
    s.onMutex m k = .ok a ↔ s.Live m ∧ k = .ok a := by
  cases m with
  | file f => cases found : s.store.files f <;> simp [onMutex, onFile, Live, found]
  | _ => simp [onMutex, Live]

theorem onFile_eq_ok {α : Type} {s : Server W} {f : FileId} {k : MemFile → Outcome Fault α} {a : α} :
    s.onFile f k = .ok a ↔ ∃ file, s.store.files f = some file ∧ k file = .ok a := by
  cases found : s.store.files f <;> simp [onFile, found]

theorem onFile_some {α : Type} {s : Server W} {f : FileId} {file : MemFile}
    (k : MemFile → Outcome Fault α) (found : s.store.files f = some file) :
    s.onFile f k = k file := by
  simp [onFile, found]

end Server

section Run
variable {W : Type} {cfg : Config} {w : W} {s : Server W} {α : Type}

@[simp] theorem run_call (o : Op) :
    (server W cfg).run w (call o) s = Server.exec cfg w o s := Machine.run_perform _ w o s

@[simp] theorem run_abort (e : Fault) :
    (server W cfg).run w (abort e : Handler α) s = .fault e := rfl

@[simp] theorem run_spin : (server W cfg).run w (spin : Handler α) s = .spinning := rfl

@[simp] theorem run_deref_some (f : FileId) :
    (server W cfg).run w (deref (some f)) s = .ok (f, s) := rfl

@[simp] theorem run_deref_none :
    (server W cfg).run w (deref none) s = .fault .nullFile := rfl

@[simp] theorem run_writeNB (fd : Nat) (msg : Msg) :
    (server W cfg).run w (writeNB fd msg) s = .ok ((), s.send fd msg) := run_call _

theorem run_lock {m : Mutex} (live : s.Live m) (free : s.owner m = none) :
    (server W cfg).run w (lock m) s = .ok ((), s.setOwner m (some w)) := by
  unfold lock
  rw [run_call]
  show s.onMutex m _ = _
  rw [s.onMutex_live m _ live, if_pos free]

theorem run_unlock {m : Mutex} (live : s.Live m) :
    (server W cfg).run w (unlock m) s = .ok ((), s.setOwner m none) := by
  unfold unlock
  rw [run_call]
  exact s.onMutex_live m _ live

theorem run_load {f : FileId} {file : MemFile} (found : s.store.files f = some file) :
    (server W cfg).run w (load f) s = .ok (file, s) := by
  unfold load
  rw [run_call]
  exact Server.onFile_some _ found

theorem run_store {f : FileId} {file : MemFile} (field : FieldWrite)
    (found : s.store.files f = some file) :
    (server W cfg).run w (store f field) s = .ok ((), s.setFile f (some (file.write field))) := by
  unfold store
  rw [run_call]
  exact Server.onFile_some _ found

end Run

/-! ## Partial correctness -/

section Wp
variable {W : Type} {strict : Prop} {cfg : Config} {w : W} {s : Server W} {α : Type}

theorem exec_ne_pageIndex (cfg : Config) (w : W) (s : Server W) {o : Op}
    (inRange : o ≠ .abort .pageIndex) : Server.exec cfg w o s ≠ .fault .pageIndex := by
  intro failed
  have onFile {β : Type} {f : FileId} {k : MemFile → Outcome Fault β}
      (h : s.onFile f k = .fault .pageIndex) : ∃ file, k file = .fault .pageIndex := by
    unfold Server.onFile at h
    split at h
    · cases h
    · exact ⟨_, h⟩
  have onMutex {β : Type} {m : Mutex} {k : Outcome Fault β}
      (h : s.onMutex m k = .fault .pageIndex) : k = .fault .pageIndex := by
    unfold Server.onMutex at h
    split at h
    · exact (onFile h).choose_spec
    · exact h
  have readStr {str : CStr} (h : s.readStr str = .fault .pageIndex) : False := by
    cases str with
    | abspath f => obtain ⟨file, wrong⟩ := onFile h; cases wrong
    | copy path => by_cases short : path.length < posixPathMax <;> simp [Server.readStr, short] at h
    | _ => cases h
  have search {path : Path} {flag : Flag}
      (h : s.store.hashTbSearch cfg path flag = .fault .pageIndex) : False := by
    obtain ⟨f, -, -, wrong⟩ := Store.hashTbSearch_fault h
    cases wrong
  cases o with
  | lock m =>
      have wrong := onMutex failed
      split at wrong <;> cases wrong
  | unlock m => cases onMutex failed
  | abort e =>
      cases failed
      exact inRange rfl
  | load f => obtain ⟨file, wrong⟩ := onFile failed; cases wrong
  | store f field => obtain ⟨file, wrong⟩ := onFile failed; cases wrong
  | free f => obtain ⟨file, wrong⟩ := onFile failed; cases wrong
  | hashTbAdd f => obtain ⟨file, wrong⟩ := onFile failed; cases wrong
  | hashTbSearch path flag =>
      rcases Outcome.andThen_eq_fault.mp failed with h | ⟨read, -, h⟩
      · exact readStr h
      · cases read with
        | none => cases h
        | some path =>
            rcases Outcome.andThen_eq_fault.mp h with h | ⟨_, -, wrong⟩
            · exact search h
            · cases wrong
  | stackGetTop filePath =>
      rcases Outcome.andThen_eq_fault.mp failed with h | ⟨path, -, h⟩
      · exact readStr h
      · rcases Outcome.andThen_eq_fault.mp h with h | ⟨_, -, wrong⟩
        · rcases FileStack.getTop_fault h with wrong | wrong | ⟨name, h⟩
          · cases wrong
          · cases wrong
          · rcases Outcome.andThen_eq_fault.mp h with h | ⟨_, -, wrong⟩
            · exact search h
            · cases wrong
        · cases wrong
  | stackPush name =>
      rcases Outcome.andThen_eq_fault.mp failed with h | ⟨path, -, h⟩
      · exact readStr h
      · cases path with
        | none => cases h
        | some path =>
            rcases Outcome.andThen_eq_fault.mp h with h | ⟨_, -, wrong⟩
            · unfold FileStack.push at h
              split at h <;> cases h
            · cases wrong
  | memcpy page offset input size =>
      rcases Outcome.andThen_eq_fault.mp failed with h | ⟨_, -, wrong⟩
      · dsimp only [Server.memcpy] at h
        split at h
        · cases h
        · split at h <;> cases h
      · cases wrong
  | pageTake | memRead page size | fileNIncrease max | stackCell i | stackDedup i =>
      simp only [Server.exec] at failed
      split at failed <;> cases failed
  | _ => cases failed

/-- `p`, run alone by worker `w` from `s`, can only end in a value and a state related by `post`; if
`strict`, it never uses a page index out of range. -/
abbrev Ends (strict : Prop) (cfg : Config) (w : W) (p : Handler α) (post : α → Server W → Prop)
    (s : Server W) : Prop :=
  wp ((server W cfg).alone w fun e => strict → e ≠ .pageIndex) p post s

theorem ends_call_iff {o : Op} (inRange : o ≠ .abort .pageIndex) {post : o.Resp → Server W → Prop} :
    Ends strict cfg w (call o) post s ↔ ∀ x s', Server.exec cfg w o s = .ok (x, s') → post x s' := by
  have safe : ∀ e, Server.exec cfg w o s = .fault e → strict → e ≠ .pageIndex := by
    rintro e failed - rfl
    exact exec_ne_pageIndex cfg w s inRange failed
  simp only [Ends, wp_perform, Machine.alone, server]
  exact ⟨fun h => h.2, fun h => ⟨safe, h⟩⟩

theorem ends_call {o : Op} (inRange : o ≠ .abort .pageIndex) {post : o.Resp → Server W → Prop}
    (h : ∀ x s', Server.exec cfg w o s = .ok (x, s') → post x s') :
    Ends strict cfg w (call o) post s :=
  (ends_call_iff inRange).mpr h

theorem ends_abort {e : Fault} (tolerated : strict → e ≠ .pageIndex)
    {post : α → Server W → Prop} : Ends strict cfg w (abort e : Handler α) post s := by
  refine ⟨fun e' failed => ?_, fun x => x.elim⟩
  cases failed
  exact tolerated

theorem ends_spin {post : α → Server W → Prop} :
    Ends strict cfg w (spin : Handler α) post s :=
  ⟨nofun, fun x => x.elim⟩

theorem ends_deref {ptr : Option FileId} {post : FileId → Server W → Prop} :
    Ends strict cfg w (deref ptr) post s ↔ ∀ f, ptr = some f → post f s := by
  cases ptr with
  | none => exact iff_of_true (ends_abort fun _ => by simp) nofun
  | some f => simp [deref]

theorem ends_lock {m : Mutex} {post : Unit → Server W → Prop} :
    Ends strict cfg w (lock m) post s ↔
      (s.Live m → s.owner m = none → post () (s.setOwner m (some w))) := by
  unfold lock
  rw [ends_call_iff (by simp)]
  simp only [Server.exec, Server.onMutex_eq_ok]
  constructor
  · intro h live free
    exact h () _ ⟨live, by rw [if_pos free]⟩
  · rintro h x s' ⟨live, step⟩
    split at step
    · rename_i free
      cases step
      exact h live free
    · cases step

theorem ends_unlock {m : Mutex} {post : Unit → Server W → Prop} :
    Ends strict cfg w (unlock m) post s ↔ (s.Live m → post () (s.setOwner m none)) := by
  unfold unlock
  rw [ends_call_iff (by simp)]
  simp only [Server.exec, Server.onMutex_eq_ok, Outcome.ok.injEq, Prod.mk.injEq]
  constructor
  · intro h live
    exact h () _ ⟨live, trivial, rfl⟩
  · rintro h x s' ⟨live, -, rfl⟩
    exact h live

theorem ends_load {f : FileId} {post : MemFile → Server W → Prop} :
    Ends strict cfg w (load f) post s ↔ ∀ file, s.store.files f = some file → post file s := by
  unfold load
  rw [ends_call_iff (by simp)]
  simp only [Server.exec, Server.onFile_eq_ok, Outcome.ok.injEq, Prod.mk.injEq]
  constructor
  · intro h file found
    exact h file s ⟨file, found, rfl, rfl⟩
  · rintro h x s' ⟨file, found, rfl, rfl⟩
    exact h _ found

theorem ends_store {f : FileId} {field : FieldWrite} {post : Unit → Server W → Prop} :
    Ends strict cfg w (store f field) post s ↔
      ∀ file, s.store.files f = some file → post () (s.setFile f (some (file.write field))) := by
  unfold store
  rw [ends_call_iff (by simp)]
  simp only [Server.exec, Server.onFile_eq_ok, Outcome.ok.injEq, Prod.mk.injEq]
  constructor
  · intro h file found
    exact h () _ ⟨file, found, trivial, rfl⟩
  · rintro h x s' ⟨file, found, -, rfl⟩
    exact h file found

theorem ends_writeNB {fd : Nat} {msg : Msg} {post : Unit → Server W → Prop} :
    Ends strict cfg w (writeNB fd msg) post s ↔ post () (s.send fd msg) := by
  unfold writeNB
  rw [ends_call_iff (by simp)]
  simp only [Server.exec, Outcome.ok.injEq, Prod.mk.injEq]
  constructor
  · intro h
    exact h () _ ⟨trivial, rfl⟩
  · rintro h x s' ⟨-, rfl⟩
    exact h

theorem ends_bind {β : Type} {p : Handler α} {k : α → Handler β} {post : β → Server W → Prop} :
    Ends strict cfg w (p >>= k) post s ↔ Ends strict cfg w p (fun a => Ends strict cfg w (k a) post) s :=
  wp_bind p k post s

theorem Ends.run {p : Handler α} {post : α → Server W → Prop} (h : Ends strict cfg w p post s)
    {a : α} {s' : Server W} (ends : (server W cfg).run w p s = .ok (a, s')) : post a s' :=
  (((server W cfg).wp_alone w _ p post s).mp h).2 a s' ends

theorem Ends.inRange {p : Handler α} {post : α → Server W → Prop} (h : Ends True cfg w p post s) :
    (server W cfg).run w p s ≠ .fault .pageIndex :=
  fun failed => (((server W cfg).wp_alone w _ p post s).mp h).1 _ failed trivial rfl

theorem ends_of_run {p : Handler α} {a : α} {s' : Server W} {post : α → Server W → Prop}
    (ends : (server W cfg).run w p s = .ok (a, s')) : Ends strict cfg w p post s ↔ post a s' := by
  rw [Ends, Machine.wp_alone, ends]
  constructor
  · rintro ⟨-, h⟩
    exact h a s' rfl
  · intro h
    refine ⟨nofun, ?_⟩
    rintro a₁ s₁ same
    cases same
    exact h

theorem ends_of_fault {p : Handler α} {e : Fault} {post : α → Server W → Prop}
    (failed : (server W cfg).run w p s = .fault e) (tolerated : strict → e ≠ .pageIndex) :
    Ends strict cfg w p post s := by
  rw [Ends, Machine.wp_alone, failed]
  refine ⟨?_, nofun⟩
  rintro e' same
  cases same
  exact tolerated

theorem ends_congr_run {p q : Handler α} {t : Server W} {post : α → Server W → Prop}
    (same : (server W cfg).run w p s = (server W cfg).run w q t) :
    Ends strict cfg w p post s ↔ Ends strict cfg w q post t := by
  rw [Ends, Ends, Machine.wp_alone, Machine.wp_alone, same]

theorem ends_anyhow (p : Handler α) : Ends False cfg w p (fun _ _ => True) s := by
  rw [Ends, Machine.wp_alone]
  exact ⟨nofun, fun _ _ _ => trivial⟩

end Wp

end FileServer
