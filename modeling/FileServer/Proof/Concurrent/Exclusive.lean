import FileServer.Proof.Concurrent.Ownership

/-!
# Pages belong to one place

Whatever the interleaving, a page is on the list of free pages, in one record, or in the hands of one
worker that has taken it from there.
-/

namespace FileServer
open Program

/-! ## Runs -/

structure Exclusive {W : Type} (cfg : Config) (G : W → Hand × Grip) (s : Server W) : Prop where
  inHand : InHand cfg (Prod.fst ∘ G) s
  locks : ∀ w, (G w).1.locks = (G w).2.locks
  owned : Owned (Prod.snd ∘ G) s

def works (cfg : Config) : Discipline Op Op.Resp (Hand × Grip) := (conduct cfg False).prod grips

def rests (both : Hand × Grip) : Prop := both.1.locks = [] ∧ both.2.Idle

theorem works_client {W : Type} {cfg : Config} {w : W} {p : Handler Unit} (starts : ClientStarts cfg w p) :
    wp (works cfg) p (fun _ => rests) (.empty, .empty) :=
  wp_prod (wp_client starts) (Grip.wp_client starts)

namespace Exclusive
variable {W : Type} {cfg : Config} {w v : W} {s s' : Server W} {G : W → Hand × Grip} {m : Mutex}

theorem owner (exclusive : Exclusive cfg G s) : s.owner m = some w ↔ m ∈ (G w).2.locks := by
  rw [← exclusive.locks]
  exact exclusive.inHand.owner m w

theorem apart (exclusive : Exclusive cfg G s) (other : v ≠ w) (held : m ∈ (G v).2.locks) :
    m ∉ (G w).2.locks := by
  intro also
  rw [← exclusive.owner] at held also
  exact other (Option.some.inj (held.symm.trans also))

theorem initial (cfg : Config) : Exclusive cfg (fun _ : W => (.empty, .empty)) (Server.initial W cfg) :=
  ⟨InHand.initial cfg, fun _ => rfl, Owned.initial cfg⟩

variable [DecidableEq W]

theorem start (exclusive : Exclusive cfg G s) (idle : rests (G w)) :
    Exclusive cfg (Function.update G w (.empty, .empty)) s := by
  refine ⟨?_, ?_, ?_⟩
  · rw [Function.comp_update]
    exact exclusive.inHand.start idle.1
  · exact (Function.forall_update_iff G fun _ both => both.1.locks = both.2.locks).mpr
      ⟨rfl, fun v _ => exclusive.locks v⟩
  · rw [Function.comp_update]
    exact exclusive.owned.start

theorem exec {o : Op} {x : o.Resp} (exclusive : Exclusive cfg G s) (allowed : (works cfg).pre (G w) o)
    (step : Server.exec cfg w o s = .ok (x, s')) : (works cfg).post (G w) o x
        ((G w).1.after o x, (G w).2.after o x) ∧
      Exclusive cfg (Function.update G w ((G w).1.after o x, (G w).2.after o x)) s' := by
  refine ⟨⟨⟨expects_uncounted x, rfl⟩, ?_, rfl⟩, ?_, ?_, ?_⟩
  · exact exclusive.owned.expects (fun m held => exclusive.owner.mpr held) step
  · rw [Function.comp_update]
    exact exclusive.inHand.exec allowed.1 step
  · exact (Function.forall_update_iff G fun _ both => both.1.locks = both.2.locks).mpr
      ⟨after_locks_eq (exclusive.locks w) x, fun v _ => exclusive.locks v⟩
  · rw [Function.comp_update]
    refine exclusive.owned.exec allowed.2 (fun v other m held => exclusive.apart other held) ?_ step
    intro v f held
    refine exclusive.inHand.known v f (.inr ?_)
    show _ ∈ (G v).1.locks
    rw [exclusive.locks]
    exact held

end Exclusive

theorem exclusive_preserved {W : Type} [DecidableEq W] (cfg : Config) :
    Machine.Preserved (server W cfg) (ClientStarts cfg) (fun _ _ => True) (Server.initial W cfg)
      (works cfg) rests (fun G s => Exclusive cfg G s.state) where
  init := ⟨_, Exclusive.initial cfg, fun _ => ⟨rfl, rfl, rfl⟩⟩
  start _ _ _ _ exclusive _ done allowed := ⟨_, exclusive.start done, works_client allowed⟩
  exec _ _ _ _ _ _ _ exclusive _ _ _ allowed step := ⟨_, exclusive.exec allowed step⟩

/-- No page is in two places at once. -/
structure Store.PagesApart (σ : Store) : Prop where
  free : σ.pages.Nodup ∧ ∀ page ∈ σ.pages, page < σ.pageN
  held : ∀ f file, σ.files f = some file → file.pages.Nodup ∧ file.pages.Disjoint σ.pages ∧
    ∀ page ∈ file.pages, page < σ.pageN
  apart : ∀ f g file file', f ≠ g → σ.files f = some file → σ.files g = some file' →
    file.pages.Disjoint file'.pages

/-- The operation puts the page on the list or into a record that did not have it. -/
def Op.HandsOver (σ : Store) (page : Nat) : Op → Prop
  | .pageAdd page' | .store _ (.pagesFill page') => page' = page
  | .store f (.pagesRenew _ pages) => page ∈ pages ∧ ∃ file, σ.files f = some file ∧ page ∉ file.pages
  | _ => False

def Store.Untaken (σ : Store) (page : Nat) : Prop :=
  page < σ.pageN ∧ page ∉ σ.pages ∧ ∀ f file, σ.files f = some file → page ∉ file.pages

theorem Owned.pagesApart {W : Type} {G : W → Grip} {s : Server W} (owned : Owned G s) :
    s.store.PagesApart := by
  have apportioned := owned.apportioned
  have record {f : FileId} {file : MemFile} (found : s.store.files f = some file) :
      PagePlace.pages G s.store (.record f) = file.pages := by
    show (s.store.files f).elim [] MemFile.pages = _
    rw [found]
    rfl
  refine ⟨⟨apportioned.nodup .free, apportioned.items .free⟩, fun f file found => ?_,
    fun f g file file' other found found' => ?_⟩
  · rw [← record found]
    exact ⟨apportioned.nodup _, apportioned.apart _ .free (by simp), apportioned.items _⟩
  · rw [← record found, ← record found']
    exact apportioned.apart _ _ fun same => other (PagePlace.record.inj same)

theorem Owned.untaken {W : Type} {G : W → Grip} {s : Server W} {w : W} {page : Nat} (owned : Owned G s)
    (taken : page ∈ (G w).pages) : s.store.Untaken page := by
  have here : page ∈ PagePlace.pages G s.store (.hand w) := taken
  refine ⟨owned.apportioned.items _ page here, fun free => ?_, fun f file found held => ?_⟩
  · exact owned.apportioned.apart (.hand w) .free (by simp) here free
  · have there : page ∈ PagePlace.pages G s.store (.record f) := by
      show page ∈ (s.store.files f).elim [] MemFile.pages
      rw [found]
      exact held
    exact owned.apportioned.apart (.hand w) (.record f) (by simp) here there

/-- Whatever the interleaving, no page is in two places, and none is put where it already is. -/
theorem pages_apart {W : Type} [DecidableEq W] {cfg : Config} {s : System Op Op.Resp W (Server W)}
    (reachable : (server W cfg).Reachable (ClientStarts cfg) (fun _ _ => True)
      (Server.initial W cfg) s) : s.state.store.PagesApart ∧ ∀ w o next page,
        s.threads w = .op o next → o.HandsOver s.state.store page → s.state.store.Untaken page := by
  obtain ⟨G, exclusive, safe⟩ := (exclusive_preserved cfg).reachable reachable
  refine ⟨exclusive.owned.pagesApart, fun w o next page action gives => ?_⟩
  have safe := safe w
  rw [action] at safe
  refine exclusive.owned.untaken (w := w) ?_
  have moves : (G w).2.mayMove o := safe.1.2.2
  cases o with
  | pageAdd page' =>
      cases gives
      exact moves
  | store f field =>
      cases field with
      | pagesFill page' =>
          cases gives
          exact moves
      | pagesRenew dim pages =>
          obtain ⟨added, file, found, new⟩ := gives
          obtain ⟨file', seen, fewer⟩ := moves
          obtain rfl := (exclusive.owned.seen w f file' seen).2 file found
          exact (List.mem_append.mp (fewer.subset added)).resolve_left new
      | _ => cases gives
  | _ => cases gives

/-! ## One file filled while another one grows -/

def fillsAndGrows : List ClientMove :=
  searches true [97] ++ creates true ++ searches false [98] ++ creates false ++
    requests smallConfig false (.fileWrite [98] 7 3 (ones 3)) 30 ++
    requests smallConfig true (.fileWrite [97] 7 8 (ones 8)) 19 ++
    requests smallConfig false (.fileAppend [98] 7 5 (ones 5)) 16

def handsOverNext (s : System Op Op.Resp Bool (Server Bool)) (w : Bool) (page : Nat) : Bool :=
  match (s.threads w).next? with
  | some (.store _ (.pagesFill page')) => page' = page
  | some (.store f (.pagesRenew _ pages)) =>
      page ∈ pages ∧ (s.state.store.files f).any fun file => page ∉ file.pages
  | _ => false

theorem handsOver_of_next {s : System Op Op.Resp Bool (Server Bool)} {w : Bool} {page : Nat}
    (passes : handsOverNext s w page = true) :
    ∃ o next, s.threads w = .op o next ∧ o.HandsOver s.state.store page := by
  unfold handsOverNext at passes
  split at passes
  · rename_i action
    obtain ⟨next, action⟩ := next?_eq_some action
    have same : _ = page := of_decide_eq_true passes
    exact ⟨_, next, action, same⟩
  · rename_i f dim pages action
    obtain ⟨next, action⟩ := next?_eq_some action
    obtain ⟨added, new⟩ := of_decide_eq_true passes
    cases found : s.state.store.files f with
    | none =>
        rw [found] at new
        cases new
    | some file =>
        rw [found] at new
        exact ⟨_, next, action, added, file, found, of_decide_eq_true new⟩
  · cases passes

theorem fillsAndGrows_starts : ∀ m ∈ fillsAndGrows, m.startsFrom (ClientStarts smallConfig) := by
  simp only [fillsAndGrows, List.forall_mem_append]
  exact ⟨⟨⟨⟨⟨⟨searches_starts _ _, creates_starts _⟩, searches_starts _ _⟩, creates_starts _⟩,
    requests_starts _ _ _ _⟩, requests_starts _ _ _ _⟩, requests_starts _ _ _ _⟩

theorem pages_apart_example : ∃ s : System Op Op.Resp Bool (Server Bool),
    s.state.store.PagesApart ∧ s.state.store.Untaken 2 ∧ s.state.store.Untaken 1 := by
  have run : ∃ s, (server Bool smallConfig).Reachable (ClientStarts smallConfig)
      (fun _ _ => True) (Server.initial Bool smallConfig) s ∧
        (handsOverNext s true 2 && handsOverNext s false 1) = true :=
    Machine.Reachable.of_schedule (fun _ _ => true) (fun _ _ _ => trivial) fillsAndGrows_starts
      (by decide +kernel)
  obtain ⟨s, reachable, both⟩ := run
  obtain ⟨first, second⟩ := Bool.and_eq_true_iff.mp both
  obtain ⟨o, next, action, gives⟩ := handsOver_of_next first
  obtain ⟨o', next', action', gives'⟩ := handsOver_of_next second
  obtain ⟨apart, untaken⟩ := pages_apart reachable
  exact ⟨s, apart, untaken true o next 2 action gives, untaken false o' next' 1 action' gives'⟩

end FileServer
