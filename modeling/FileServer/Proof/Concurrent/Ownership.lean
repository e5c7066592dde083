import FileServer.Apportion
import FileServer.Proof.Concurrent.Holding
import FileServer.Proof.Concurrent.Guarded

/-!
# Where the pages are

The list of free pages, the records and the hands of the workers share out the pages, and every operation keeps
it so.
-/

namespace FileServer
open Program

inductive PagePlace (W : Type) where
  | free
  | record (f : FileId)
  | hand (w : W)

def PagePlace.pages {W : Type} (G : W → Grip) (σ : Store) : PagePlace W → List Nat
  | .free => σ.pages
  | .record f => (σ.files f).elim [] MemFile.pages
  | .hand w => (G w).pages

def Store.pageNumbers (σ : Store) : Set Nat := {page | page < σ.pageN}

/-- A record that has been looked at is held, and is as it was. -/
structure Owned {W : Type} (G : W → Grip) (s : Server W) : Prop where
  apportioned : Apportioned s.store.pageNumbers (PagePlace.pages G s.store)
  seen : ∀ w f file, (G w).seen = some (f, file) → .file f ∈ (G w).locks ∧
    ∀ file', s.store.files f = some file' → file' = file

def Op.aside : Op → Bool
  | .pageTake | .pageAdd _ | .memcpy _ _ _ _ => false
  | _ => true

def Op.keepsFiles : Op → Bool
  | .store _ _ | .newFile _ | .free _ => false
  | _ => true

section
variable {W : Type} {cfg : Config} {w : W} {s s' : Server W} {h : Hand} {g : Grip} {f : FileId}

/-! ## Operations -/

theorem exec_aside {o : Op} {x : o.Resp} (aside : o.aside = true)
    (step : Server.exec cfg w o s = .ok (x, s')) :
    s'.store.pages = s.store.pages ∧ s'.store.memPtr = s.store.memPtr ∧
      s'.store.pageN = s.store.pageN := by
  cases o with
  | pageTake | pageAdd page | memcpy page offset input size => cases aside
  | lock m =>
      obtain ⟨-, -, rfl⟩ := exec_lock step
      exact ⟨rfl, rfl, rfl⟩
  | unlock m =>
      cases exec_unlock step
      exact ⟨rfl, rfl, rfl⟩
  | abort e | spin => cases step
  | load f | store f field | free f | hashTbAdd f =>
      obtain ⟨file, -, same⟩ := Server.onFile_eq_ok.mp step
      cases same
      exact ⟨rfl, rfl, rfl⟩
  | hashTbSearch path flag =>
      obtain ⟨-, table, rfl, -⟩ := exec_hashTbSearch step
      exact ⟨rfl, rfl, rfl⟩
  | fileNIncrease max | memRead page size | stackCell i | stackDedup i =>
      simp only [Server.exec] at step
      split at step <;> cases step <;> exact ⟨rfl, rfl, rfl⟩
  | stackGetTop str =>
      obtain ⟨path, -, step⟩ := Outcome.andThen_eq_ok.mp step
      obtain ⟨⟨f, stack⟩, -, same⟩ := Outcome.andThen_eq_ok.mp step
      cases same
      exact ⟨rfl, rfl, rfl⟩
  | stackPush name =>
      obtain ⟨name, -, step⟩ := Outcome.andThen_eq_ok.mp step
      cases name with
      | none => cases step
      | some name =>
          obtain ⟨stack, -, same⟩ := Outcome.andThen_eq_ok.mp step
          cases same
          exact ⟨rfl, rfl, rfl⟩
  | _ =>
      cases step
      exact ⟨rfl, rfl, rfl⟩

theorem exec_memcpy {page size : Nat} {offset : Int} {input : List UInt8}
    (step : Server.exec cfg w (.memcpy page offset input size) s = .ok ((), s')) :
    ∃ written, s' = s.setStore { s.store with memPtr := Function.update s.store.memPtr page written } := by
  obtain ⟨s₁, copied, same⟩ := Outcome.andThen_eq_ok.mp step
  cases same
  simp only [Server.memcpy] at copied
  split at copied
  · cases copied
  · split at copied
    · cases copied
    · cases copied
      exact ⟨_, rfl⟩

theorem exec_keepsFiles {o : Op} {x : o.Resp} (keeps : o.keepsFiles = true)
    (step : Server.exec cfg w o s = .ok (x, s')) : s'.store.files = s.store.files := by
  cases performed step with
  | store | newFile | free => cases keeps
  | quiet _ same => exact same.files
  | _ => rfl

theorem exec_pageTake {x : Option Nat} (step : Server.exec cfg w .pageTake s = .ok (x, s')) :
    s.store.pages = x.toList ++ s'.store.pages ∧ ∃ pages,
      s' = s.setStore { s.store with pages := pages } := by
  simp only [Server.exec] at step
  split at step
  · rename_i empty
    cases step
    exact ⟨rfl, s.store.pages, rfl⟩
  · rename_i page rest pages
    cases step
    exact ⟨pages, rest, rfl⟩

theorem exec_pageN {o : Op} {x : o.Resp} (step : Server.exec cfg w o s = .ok (x, s')) :
    s'.store.pageN = s.store.pageN := by
  cases o with
  | pageTake =>
      obtain ⟨-, pages, rfl⟩ := exec_pageTake step
      rfl
  | pageAdd page =>
      cases step
      rfl
  | memcpy page offset input size =>
      obtain ⟨written, rfl⟩ := exec_memcpy step
      rfl
  | _ => exact (exec_aside rfl step).2.2

theorem after_locks_eq (same : h.locks = g.locks) {o : Op} (x : o.Resp) :
    (h.after o x).locks = (g.after o x).locks := by
  cases o with
  | lock m => cases m <;> simp [Hand.after, Grip.after, same]
  | unlock m => cases m <;> simp [Hand.after, Grip.after, same]
  | hashTbSearch str flag => cases flag <;> exact same
  | store f field => cases field <;> exact same
  | _ => exact same

end

/-! ## What is in one place -/

namespace Owned
variable {W : Type} {cfg : Config} {w : W} {s s' : Server W} {G : W → Grip}
  {g : Grip} {f : FileId}

theorem pages_record_of_ne {f' : FileId} {file : Option MemFile} (other : f' ≠ f) :
    PagePlace.pages G (s.setFile f file).store (.record f') = PagePlace.pages G s.store (.record f') := by
  simp [PagePlace.pages, Server.setFile, other]

theorem pages_record {file : Option MemFile} :
    PagePlace.pages G (s.setFile f file).store (.record f) = file.elim [] MemFile.pages := by
  simp [PagePlace.pages, Server.setFile]

theorem exec_others {o : Op} {x : o.Resp} {v : W} {file : MemFile} (guarded : ∀ m ∈ o.guards, m ∈ (G w).locks)
    (apart : ∀ m, m ∈ (G v).locks → m ∉ (G w).locks) (before : f < s.store.next)
    (held : .file f ∈ (G v).locks) (step : Server.exec cfg w o s = .ok (x, s'))
    (found : s'.store.files f = some file) : s.store.files f = some file := by
  cases o with
  | store f' field =>
      obtain ⟨file', -, rfl⟩ := exec_store step
      have other : f ≠ f' := by
        rintro rfl
        exact apart _ held (guarded _ List.mem_cons_self)
      rw [← found]
      exact (Function.update_of_ne other _ _).symm
  | newFile path =>
      cases step
      have other : f ≠ s.store.next := Nat.ne_of_lt before
      rw [← found]
      exact (Function.update_of_ne other _ _).symm
  | free f' =>
      obtain ⟨-, rfl⟩ := exec_free step
      by_cases same : f = f'
      · subst same
        exact absurd found (by simp [Server.setFile])
      · rw [← found]
        exact (Function.update_of_ne same _ _).symm
  | _ =>
      rw [exec_keepsFiles rfl step] at found
      exact found

theorem exec_seen {o : Op} {x : o.Resp} {file : MemFile} (owned : Owned G s) (allowed : (G w).allows o)
    (known : ∀ f, .file f ∈ (G w).locks → f < s.store.next)
    (step : Server.exec cfg w o s = .ok (x, s'))
    (seen : ((G w).after o x).seen = some (f, file)) : .file f ∈ ((G w).after o x).locks ∧
      ∀ file', s'.store.files f = some file' → file' = file := by
  have keeps (same : ((G w).after o x).seen = (G w).seen) (locks : ((G w).after o x).locks = (G w).locks)
      (keeps : o.keepsFiles = true) : .file f ∈ ((G w).after o x).locks ∧
        ∀ file', s'.store.files f = some file' → file' = file := by
    rw [same] at seen
    rw [locks, exec_keepsFiles keeps step]
    exact owned.seen w f file seen
  cases o with
  | lock m =>
      obtain ⟨held, stays⟩ := owned.seen w f file seen
      rw [exec_keepsFiles rfl step]
      exact ⟨List.mem_cons_of_mem _ held, stays⟩
  | unlock m =>
      rw [exec_keepsFiles rfl step]
      cases m with
      | file f' =>
          obtain ⟨before, other⟩ := Option.filter_eq_some_iff.mp seen
          obtain ⟨held, stays⟩ := owned.seen w f file before
          refine ⟨?_, stays⟩
          have different : Mutex.file f ≠ .file f' := by
            rintro ⟨⟩
            simp at other
          exact (List.mem_erase_of_ne different).mpr held
      | _ =>
          obtain ⟨held, stays⟩ := owned.seen w f file seen
          exact ⟨(List.mem_erase_of_ne (by simp)).mpr held, stays⟩
  | load f' =>
      obtain ⟨file₁, found, same⟩ := Server.onFile_eq_ok.mp step
      cases same
      cases seen
      refine ⟨allowed.1 _ List.mem_cons_self, fun file' again => ?_⟩
      exact Option.some.inj (again.symm.trans found)
  | store f' field =>
      obtain ⟨file₁, found, rfl⟩ := exec_store step
      obtain ⟨⟨f₀, file₀⟩, before, same⟩ := Option.map_eq_some_iff.mp seen
      obtain ⟨held, stays⟩ := owned.seen w f₀ file₀ before
      by_cases here : f₀ = f'
      · subst here
        rw [if_pos rfl] at same
        cases same
        refine ⟨held, fun file' after => ?_⟩
        rw [← stays file₁ found]
        simpa [Server.setFile, eq_comm] using after
      · rw [if_neg here] at same
        cases same
        refine ⟨held, fun file' after => stays file' ?_⟩
        rw [← after]
        exact (Function.update_of_ne here _ _).symm
  | newFile path =>
      cases step
      obtain ⟨held, stays⟩ := owned.seen w f file seen
      refine ⟨held, fun file' after => stays file' ?_⟩
      rw [← after]
      exact (Function.update_of_ne (Nat.ne_of_lt (known f held)) _ _).symm
  | free f' =>
      obtain ⟨-, rfl⟩ := exec_free step
      obtain ⟨held, stays⟩ := owned.seen w f file seen
      refine ⟨held, fun file' after => ?_⟩
      by_cases same : f = f'
      · subst same
        exact absurd after (by simp [Server.setFile])
      · refine stays file' ?_
        rw [← after]
        exact (Function.update_of_ne same _ _).symm
  | _ => exact keeps rfl rfl rfl

theorem expects {o : Op} {x : o.Resp} (owned : Owned G s)
    (owner : ∀ m, m ∈ (G w).locks → s.owner m = some w)
    (step : Server.exec cfg w o s = .ok (x, s')) : (G w).expects o x := by
  cases o with
  | lock m =>
      obtain ⟨-, free, -⟩ := exec_lock step
      intro held
      rw [owner m held] at free
      cases free
  | load f =>
      obtain ⟨file, found, same⟩ := Server.onFile_eq_ok.mp step
      cases same
      exact fun file' seen => (owned.seen w f file' seen).2 x found
  | _ => trivial

theorem initial (cfg : Config) : Owned (fun _ : W => .empty) (Server.initial W cfg) := by
  have numbers : (memorySetup cfg).pages = (List.range (memorySetup cfg).pageN).reverse := by
    show pageListCreate _ = _
    rw [pageListCreate, List.foldl_flip_cons_eq_append', List.append_nil]
    rfl
  have pages (p : PagePlace W) : PagePlace.pages (fun _ => .empty) (memorySetup cfg) p =
      (memorySetup cfg).pages ∧ p = .free ∨
      PagePlace.pages (fun _ => .empty) (memorySetup cfg) p = [] ∧ p ≠ .free := by
    cases p with
    | free => exact .inl ⟨rfl, rfl⟩
    | _ => exact .inr ⟨rfl, by simp⟩
  refine ⟨⟨fun p page here => ?_, fun p => ?_, fun p q different page left right => ?_⟩,
    fun w f file seen => by cases seen⟩
  · rcases pages p with ⟨free, -⟩ | ⟨none, -⟩
    · change page ∈ PagePlace.pages (fun _ => .empty) (memorySetup cfg) p at here
      rw [free, numbers, List.mem_reverse, List.mem_range] at here
      exact here
    · change page ∈ PagePlace.pages (fun _ => .empty) (memorySetup cfg) p at here
      rw [none] at here
      cases here
  · show (PagePlace.pages (fun _ => .empty) (memorySetup cfg) p).Nodup
    rcases pages p with ⟨free, -⟩ | ⟨none, -⟩
    · rw [free, numbers, List.nodup_reverse]
      exact List.nodup_range
    · rw [none]
      exact List.nodup_nil
  · change page ∈ PagePlace.pages (fun _ => .empty) (memorySetup cfg) p at left
    change page ∈ PagePlace.pages (fun _ => .empty) (memorySetup cfg) q at right
    rcases pages p with ⟨-, isFree⟩ | ⟨none, -⟩
    · rcases pages q with ⟨-, isFree'⟩ | ⟨none, -⟩
      · exact different (isFree.trans isFree'.symm)
      · rw [none] at right
        cases right
    · rw [none] at left
      cases left

variable [DecidableEq W]

theorem same_pages (hand : g.pages = (G w).pages) (files : s'.store.files = s.store.files)
    (pages : s'.store.pages = s.store.pages) :
    PagePlace.pages (Function.update G w g) s'.store = PagePlace.pages G s.store := by
  funext p
  cases p with
  | free => exact pages
  | record f =>
      show (s'.store.files f).elim [] MemFile.pages = _
      rw [files]
      rfl
  | hand v =>
      by_cases same : v = w
      · subst same
        simp [PagePlace.pages, hand]
      · simp [PagePlace.pages, same]

theorem pages_hand (G : W → Grip) (σ : Store) (w : W) (g : Grip) :
    PagePlace.pages (Function.update G w g) σ (.hand w) = g.pages := by
  simp [PagePlace.pages]

theorem pages_hand_of_ne {v : W} (other : v ≠ w) (σ : Store) :
    PagePlace.pages (Function.update G w g) σ (.hand v) = (G v).pages := by
  simp [PagePlace.pages, other]

/-- Between a record and the hands of the worker that changes it. -/
theorem exchange {file : Option MemFile}
    (apportioned : Apportioned s.store.pageNumbers (PagePlace.pages G s.store))
    (fewer : (file.elim [] MemFile.pages ++ g.pages).Subperm
      ((s.store.files f).elim [] MemFile.pages ++ (G w).pages)) :
    Apportioned s.store.pageNumbers
      (PagePlace.pages (Function.update G w g) (s.setFile f file).store) := by
  refine apportioned.transfer (a := .record f) (b := .hand w) (by simp) ?_ fun p notRecord notHand => ?_
  · rw [pages_record, pages_hand]
    exact fewer
  · cases p with
    | free => rfl
    | record f' =>
        rw [pages_record_of_ne fun same => notRecord (congrArg PagePlace.record same)]
        rfl
    | hand v => exact pages_hand_of_ne (fun same => notHand (congrArg PagePlace.hand same)) _

theorem exec_apportioned {o : Op} {x : o.Resp} (owned : Owned G s) (allowed : (G w).allows o)
    (step : Server.exec cfg w o s = .ok (x, s')) : Apportioned s'.store.pageNumbers
      (PagePlace.pages (Function.update G w ((G w).after o x)) s'.store) := by
  have numbers : s'.store.pageNumbers = s.store.pageNumbers := by
    rw [Store.pageNumbers, exec_pageN step]
    rfl
  rw [numbers]
  have apportioned := owned.apportioned
  have idle (hand : ((G w).after o x).pages = (G w).pages) (keeps : o.keepsFiles = true)
      (aside : o.aside = true) : Apportioned s.store.pageNumbers
        (PagePlace.pages (Function.update G w ((G w).after o x)) s'.store) := by
    rw [same_pages hand (exec_keepsFiles keeps step) (exec_aside aside step).1]
    exact apportioned
  cases o with
  | pageTake =>
      obtain ⟨split, pages, rfl⟩ := exec_pageTake step
      refine apportioned.transfer (a := .free) (b := .hand w) (by simp) ?_ fun p notFree notHand => ?_
      · rw [pages_hand]
        show (pages ++ (x.toList ++ (G w).pages)).Subperm (s.store.pages ++ (G w).pages)
        have split : s.store.pages = x.toList ++ pages := split
        rw [split, ← List.append_assoc]
        exact (List.perm_append_comm.append_right _).subperm
      · cases p with
        | free => exact absurd rfl notFree
        | record f => rfl
        | hand v => exact pages_hand_of_ne (fun same => notHand (congrArg PagePlace.hand same)) _
  | pageAdd page =>
      cases step
      have mine : page ∈ (G w).pages := allowed.2
      refine apportioned.transfer (a := .free) (b := .hand w) (by simp) ?_ fun p notFree notHand => ?_
      · rw [pages_hand]
        show (page :: s.store.pages ++ (G w).pages.erase page).Subperm (s.store.pages ++ (G w).pages)
        have moved : (s.store.pages ++ page :: (G w).pages.erase page).Perm
            (page :: s.store.pages ++ (G w).pages.erase page) := List.perm_middle
        exact (moved.symm.trans ((List.perm_cons_erase mine).symm.append_left _)).subperm
      · cases p with
        | free => exact absurd rfl notFree
        | record f => rfl
        | hand v => exact pages_hand_of_ne (fun same => notHand (congrArg PagePlace.hand same)) _
  | memcpy page offset input size =>
      obtain ⟨written, rfl⟩ := exec_memcpy step
      have same : PagePlace.pages (Function.update G w (G w))
          (s.setStore { s.store with memPtr := Function.update s.store.memPtr page written }).store =
          PagePlace.pages G s.store := same_pages rfl rfl rfl
      exact same ▸ apportioned
  | free f =>
      obtain ⟨found, rfl⟩ := exec_free step
      apply exchange apportioned
      rw [found]
      exact List.Subperm.refl _
  | newFile path =>
      cases step
      refine apportioned.keep (.record s.store.next) ?_ fun p other => ?_
      · simp [PagePlace.pages]
      · cases p with
        | free => rfl
        | record f =>
            have different : f ≠ s.store.next := fun same => other (congrArg PagePlace.record same)
            simp [PagePlace.pages, different]
        | hand v =>
            have same : Function.update G w ((G w).after (.newFile path) s.store.next) = G :=
              Function.update_eq_self w G
            rw [same]
            rfl
  | store f field =>
      obtain ⟨file, found, rfl⟩ := exec_store step
      apply exchange apportioned
      rw [found]
      show ((file.write field).pages ++ _).Subperm (file.pages ++ (G w).pages)
      cases field with
      | pagesAlloc => exact (List.sublist_append_right file.pages (G w).pages).subperm
      | pagesFill page =>
          show (file.pages ++ [page] ++ (G w).pages.erase page).Subperm _
          rw [List.append_assoc]
          have mine : page ∈ (G w).pages := allowed.2
          exact (((List.perm_cons_erase mine).symm).append_left _).subperm
      | pagesRenew dim pages =>
          obtain ⟨file', seen, fewer⟩ := allowed.2
          obtain rfl := (owned.seen w f file' seen).2 file found
          show (pages ++ ((G w).pagesSeen ++ (G w).pages).diff pages).Subperm _
          have known : (G w).pagesSeen = file.pages := by
            rw [Grip.pagesSeen, seen]
            rfl
          rw [known]
          apply List.Perm.subperm
          apply List.subperm_append_diff_self_of_count_le
          exact fun page _ => fewer.count_le page
      | _ => exact List.Subperm.refl _
  | lock m => exact idle rfl rfl rfl
  | unlock m => cases m <;> exact idle rfl rfl rfl
  | _ => exact idle rfl rfl rfl

theorem exec {o : Op} {x : o.Resp} (owned : Owned G s) (allowed : (G w).allows o)
    (apart : ∀ v, v ≠ w → ∀ m, m ∈ (G v).locks → m ∉ (G w).locks)
    (known : ∀ v f, .file f ∈ (G v).locks → f < s.store.next)
    (step : Server.exec cfg w o s = .ok (x, s')) :
    Owned (Function.update G w ((G w).after o x)) s' := by
  refine ⟨owned.exec_apportioned allowed step, fun v f file seen => ?_⟩
  by_cases same : v = w
  · subst same
    rw [Function.update_self] at seen ⊢
    exact owned.exec_seen allowed (known v) step seen
  · rw [Function.update_of_ne same] at seen ⊢
    obtain ⟨held, stays⟩ := owned.seen v f file seen
    refine ⟨held, fun file' found => stays file' ?_⟩
    exact exec_others allowed.1 (apart v same) (known v f held) held step found

theorem start (owned : Owned G s) : Owned (Function.update G w .empty) s := by
  refine ⟨owned.apportioned.keep (.hand w) ?_ fun p other => ?_, fun v f file seen => ?_⟩
  · rw [pages_hand]
    exact List.nil_subperm
  · cases p with
    | hand v => exact pages_hand_of_ne (fun same => other (congrArg PagePlace.hand same)) _
    | _ => rfl
  · by_cases same : v = w
    · subst same
      rw [Function.update_self] at seen
      cases seen
    · rw [Function.update_of_ne same] at seen ⊢
      exact owned.seen v f file seen

end Owned

end FileServer
