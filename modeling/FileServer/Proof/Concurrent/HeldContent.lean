import FileServer.Proof.Concurrent.Races
import Mathlib.Logic.Relation

/-!
# What a worker reads under the mutex of a record

The record and the bytes of its pages stay as they are, whatever other workers do.
-/

namespace FileServer
open Program

/-- The operations that only look. -/
def Op.looks : Op → Bool
  | .load _ | .memRead _ _ | .writeNB _ _ | .stackTop _ | .stackCell _ | .stackMax => true
  | _ => false

/-- A step in which worker `w`, if it does anything, only looks. -/
def LooksOn {W : Type} [DecidableEq W] (cfg : Config) (w : W)
    (s s' : System Op Op.Resp W (Server W)) : Prop :=
  (server W cfg).Step (ClientStarts cfg) (DeletesAlone cfg) s s' ∧
    ∀ o next, s.threads w = .op o next → o.looks = true ∨ s'.threads w = s.threads w

/-- The record and the bytes of its pages are as they were. -/
structure SameContent {W : Type} (f : FileId) (s s' : Server W) : Prop where
  record : s'.store.files f = s.store.files f
  bytes : ∀ file, s.store.files f = some file → ∀ page ∈ file.pages,
    s'.store.memPtr page = s.store.memPtr page

theorem SameContent.refl {W : Type} (f : FileId) (s : Server W) : SameContent f s s :=
  ⟨rfl, fun _ _ _ _ => rfl⟩

theorem SameContent.trans {W : Type} {f : FileId} {s s₁ s₂ : Server W} (first : SameContent f s s₁)
    (second : SameContent f s₁ s₂) : SameContent f s s₂ :=
  ⟨second.record.trans first.record, fun file found page mem =>
    (second.bytes file (first.record.trans found) page mem).trans (first.bytes file found page mem)⟩

theorem Program.next_ne {Op : Type} {Resp : Op → Type} {α : Type} {p : Program Op Resp α} {o : Op}
    {next : Resp o → Program Op Resp α} (same : p = .op o next) (x : Resp o) : next x ≠ p := by
  induction p with
  | ret a => cases same
  | op o' next' ih =>
      cases same
      exact fun again => ih x again rfl

section
variable {W : Type} [DecidableEq W] {cfg : Config} {w v : W} {s s' : System Op Op.Resp W (Server W)}
  {G : W → Hand × Grip} {o : Op} {f : FileId} {state : Server W}

omit [DecidableEq W] in
theorem exec_looks {x : o.Resp} (looks : o.looks = true)
    (step : Server.exec cfg w o s.state = .ok (x, state)) : SameContent f s.state state ∧
      state.owner = s.state.owner := by
  have aside : o.aside = true := by cases o <;> first | rfl | cases looks
  have keeps : o.keepsFiles = true := by cases o <;> first | rfl | cases looks
  have lock (m : Mutex) : o ≠ .lock m := by
    rintro rfl
    cases looks
  have unlock (m : Mutex) : o ≠ .unlock m := by
    rintro rfl
    cases looks
  refine ⟨⟨?_, fun file found page mem => ?_⟩, exec_owner lock unlock step⟩
  · rw [exec_keepsFiles keeps step]
  · rw [(exec_aside aside step).2.1]

omit [DecidableEq W] in
theorem Orderly.exec_apart {x : o.Resp} {next : o.Resp → Handler Unit} (orderly : Orderly cfg G s)
    (held : s.state.owner (.file f) = some w) (other : v ≠ w) (action : s.threads v = .op o next)
    (allowed : (works cfg).pre (G v) o) (step : Server.exec cfg v o s.state = .ok (x, state)) :
    SameContent f s.state state ∧ state.owner (.file f) = some w := by
  have mine := orderly.exclusive.owner.mp held
  have alien {m : Mutex} (guards : m ∈ o.guards) : m ≠ .file f := by
    rintro rfl
    exact orderly.exclusive.apart other.symm mine (allowed.2.1 _ guards)
  have touched (page : Nat) (touches : o.Touches s.state.store (.page page)) (file : MemFile)
      (found : s.state.store.files f = some file) : page ∉ file.pages := by
    intro mem
    obtain ⟨f', held', there⟩ := orderly.exclusive.holds_page allowed touches
    have different : f ≠ f' := by
      rintro rfl
      exact other (Option.some.inj (held'.symm.trans held))
    have live := orderly.heldAlive.held v f' (orderly.exclusive.owner.mp held')
    obtain ⟨file', found'⟩ := Option.ne_none_iff_exists'.mp live
    exact orderly.exclusive.owned.pagesApart.apart f f' file file' different found found' mem
      (there file' found')
  refine ⟨⟨?_, fun file found page mem => ?_⟩, ?_⟩
  · cases o with
    | store f' field =>
        obtain ⟨file, -, rfl⟩ := exec_store step
        have different : f ≠ f' := by
          rintro rfl
          exact alien List.mem_cons_self rfl
        exact Function.update_of_ne different _ _
    | newFile path =>
        cases step
        have known : (G w).1.has f := .inr (by rwa [orderly.exclusive.locks])
        exact Function.update_of_ne (Nat.ne_of_lt (orderly.exclusive.inHand.known w f known)) _ _
    | free f' =>
        obtain ⟨-, rfl⟩ := exec_free step
        have different : f ≠ f' := by
          rintro rfl
          exact orderly.heldAlive.doomed v f allowed.1.2.1 w other.symm mine
        exact Function.update_of_ne different _ _
    | _ => rw [exec_keepsFiles rfl step]
  · cases o with
    | memcpy page' offset input size =>
        obtain ⟨written, rfl⟩ := exec_memcpy step
        have apart : page ≠ page' := by
          rintro rfl
          exact touched page (.inr rfl) file found mem
        exact Function.update_of_ne apart _ _
    | pageTake =>
        obtain ⟨-, pages, rfl⟩ := exec_pageTake step
        rfl
    | pageAdd page' =>
        cases step
        rfl
    | _ => rw [(exec_aside rfl step).2.1]
  · cases o with
    | lock m =>
        obtain ⟨-, free, rfl⟩ := exec_lock step
        have different : Mutex.file f ≠ m := by
          rintro rfl
          cases free.symm.trans held
        rw [Server.setOwner_owner_of_ne _ _ different]
        exact held
    | unlock m =>
        cases exec_unlock step
        rw [Server.setOwner_owner_of_ne _ _ (alien List.mem_cons_self).symm]
        exact held
    | _ => rwa [exec_owner (by simp) (by simp) step]

theorem Orderly.looksOn (orderly : Orderly cfg G s)
    (safe : ∀ v, wp (works cfg) (s.threads v) (fun _ => rests) (G v))
    (held : s.state.owner (.file f) = some w) (looksOn : LooksOn cfg w s s') :
    SameContent f s.state s'.state ∧ s'.state.owner (.file f) = some w := by
  obtain ⟨step, looks⟩ := looksOn
  cases step with
  | start idle allowed => exact ⟨.refl f s.state, held⟩
  | @exec v o next x state action alone step =>
      by_cases same : v = w
      · subst same
        have moved : (s.set v (next x) state).threads v ≠ s.threads v := by
          rw [System.set_threads_self]
          exact Program.next_ne action x
        obtain ⟨content, owner⟩ := exec_looks (f := f) ((looks o next action).resolve_right moved) step
        exact ⟨content, (congrFun owner (.file f)).trans held⟩
      · have safe := safe v
        rw [action] at safe
        exact orderly.exec_apart held same action safe.1 step

/-- While a worker holds the mutex of a record and only looks, the record and the bytes of its pages
stay as they are, whatever the others do. -/
theorem held_content (reachable : (server W cfg).Reachable (ClientStarts cfg) (DeletesAlone cfg)
      (Server.initial W cfg) s) (held : s.state.owner (.file f) = some w)
    (run : Relation.ReflTransGen (LooksOn cfg w) s s') :
    SameContent f s.state s'.state ∧ s'.state.owner (.file f) = some w := by
  have whole : (server W cfg).Reachable (ClientStarts cfg) (DeletesAlone cfg)
      (Server.initial W cfg) s' ∧ SameContent f s.state s'.state ∧
        s'.state.owner (.file f) = some w := by
    induction run with
    | refl => exact ⟨reachable, .refl f s.state, held⟩
    | tail _ step ih =>
        obtain ⟨reachable', content, held'⟩ := ih
        obtain ⟨G, orderly, safe⟩ := (Orderly.preserved W cfg).reachable reachable'
        obtain ⟨content', held''⟩ := orderly.looksOn safe held' step
        exact ⟨reachable'.step step.1, content.trans content', held''⟩
  exact whole.2

end

/-! ## A file read while another one is written -/

def readsWhileWritten : List ClientMove :=
  written ++ requests smallConfig true (.fileRead [97] 7) 10 ++ searches false [98] ++ creates false ++
    requests smallConfig false (.fileWrite [98] 7 4 (ones 4)) 22

def writesPageNext (s : System Op Op.Resp Bool (Server Bool)) : Bool :=
  s.state.owner (.file 0) = some true && deletesAloneTest s false &&
    match (s.threads false).next? with
    | some o => match Server.exec smallConfig false o s.state with
        | .ok (_, state) => state.store.memPtr 2 ≠ s.state.store.memPtr 2
        | _ => false
    | none => false

theorem held_content_example : ∃ s s' : System Op Op.Resp Bool (Server Bool),
    s'.state.store.memPtr 2 ≠ s.state.store.memPtr 2 ∧ SameContent 0 s.state s'.state := by
  have starts : ∀ m ∈ readsWhileWritten, m.startsFrom (ClientStarts smallConfig) := by
    simp only [readsWhileWritten, List.forall_mem_append]
    exact ⟨⟨⟨⟨written_starts, requests_starts _ _ _ _⟩, searches_starts _ _⟩, creates_starts _⟩,
      requests_starts _ _ _ _⟩
  have run : ∃ s, (server Bool smallConfig).Reachable (ClientStarts smallConfig)
      (DeletesAlone smallConfig) (Server.initial Bool smallConfig) s ∧ writesPageNext s = true :=
    Machine.Reachable.of_schedule deletesAloneTest deletesAlone_of_test starts (by decide +kernel)
  obtain ⟨s, reachable, passes⟩ := run
  obtain ⟨before, writes⟩ := Bool.and_eq_true_iff.mp passes
  obtain ⟨held, alone⟩ := Bool.and_eq_true_iff.mp before
  split at writes
  · rename_i o action
    obtain ⟨next, action⟩ := next?_eq_some action
    split at writes
    · rename_i x state step
      have moved : LooksOn smallConfig true s (s.set false (next x) state) :=
        ⟨.exec action (deletesAlone_of_test s false alone) step, fun _ _ _ =>
          .inr (System.set_threads_of_ne s _ _ (by decide))⟩
      exact ⟨s, _, of_decide_eq_true writes,
        (held_content reachable (of_decide_eq_true held) (.single moved)).1⟩
    · cases writes
  · cases writes

end FileServer
