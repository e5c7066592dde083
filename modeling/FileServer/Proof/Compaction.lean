import FileServer.Model.NameArray
import FileServer.Proof.Sequential.Defrag
import FileServer.Proof.Sequential.EvictionOrder

/-!
# Compaction on the heap

Which strings `fileStackDefrag` frees, and where the others end up.
-/

namespace FileServer

namespace NameArray

def withStack (s : NameArray) (cells : List (Option Nat)) : NameArray := { s with stack := cells }

def release (s : NameArray) (ps : List Nat) : NameArray :=
  { s with strings := fun a => if a ∈ ps then none else s.strings a }

/-- The strings of the cells. -/
def pointers (cells : List (Option Nat)) : List Nat := cells.filterMap id

def withoutSame (name : Nat → Path) (p : Nat) (cells : List (Option Nat)) : List (Option Nat) :=
  cells.map fun cell => if cell.any fun q => strncmpEq (name p) (name q) then none else cell

/-- The first string of every name that `search` finds. -/
def firsts (name : Nat → Path) (search : Path → Outcome Fault (Option FileId)) (ps : List Nat) :
    List Nat :=
  (ps.eraseDupsBy fun p q => strncmpEq (name p) (name q)).filter fun p =>
    (search (name p)).okAnd Option.isSome

section
variable {s : NameArray} {name : Nat → Path} {search : Path → Outcome Fault (Option FileId)} {p q : Nat}
  {front cells mid rest : List (Option Nat)} {cell : Option Nat} {ps qs : List Nat}

/-! ## Cells and strings -/

theorem cell_at {n : Nat} (position : front.length = n) : (front ++ cell :: cells)[n]? = some cell := by
  subst position
  simp

theorem set_at (front cells : List (Option Nat)) (cell : Option Nat) {n : Nat} (position : front.length = n)
    (other : Option Nat) : (front ++ cell :: cells).set n other = front ++ other :: cells := by
  subst position
  simp

@[simp] theorem withStack_withStack (s : NameArray) (cells cells' : List (Option Nat)) :
    (s.withStack cells).withStack cells' = s.withStack cells' := rfl
@[simp] theorem release_withStack (s : NameArray) (cells : List (Option Nat)) (ps : List Nat) :
    (s.withStack cells).release ps = (s.release ps).withStack cells := rfl

@[simp] theorem release_nil (s : NameArray) : s.release [] = s := by simp [release]

theorem release_release (s : NameArray) (ps qs : List Nat) :
    (s.release ps).release qs = s.release (ps ++ qs) := by
  have strings : (fun a => if a ∈ qs then none else if a ∈ ps then none else s.strings a) =
      fun a => if a ∈ ps ++ qs then none else s.strings a := by
    funext a
    by_cases first : a ∈ ps <;> by_cases second : a ∈ qs <;> simp [first, second]
  simp only [release, strings]

theorem release_congr (same : ∀ a, a ∈ ps ↔ a ∈ qs) : s.release ps = s.release qs := by
  simp only [release, same]

theorem free_eq (alive : s.strings p = some (name p)) : s.free p = some (s.release [p]) := by
  have strings : Function.update s.strings p none = fun a => if a ∈ [p] then none else s.strings a := by
    funext a
    simp [Function.update_apply]
  simp [free, alive, release, strings]

@[simp] theorem pointers_none : pointers (none :: cells) = pointers cells := rfl
@[simp] theorem pointers_some : pointers (some p :: cells) = p :: pointers cells := rfl

theorem pointers_withoutSame (name : Nat → Path) (p : Nat) (cells : List (Option Nat)) :
    pointers (withoutSame name p cells) =
      (pointers cells).filter fun q => strncmpEq (name q) (name p) = false := by
  induction cells with
  | nil => rfl
  | cons cell cells ih =>
      cases cell with
      | none => exact ih
      | some q =>
          unfold pointers withoutSame at ih ⊢
          cases same : strncmpEq (name p) (name q) <;>
            simpa [strncmpEq_comm (name q), same] using ih

/-! ## The inner loop -/

theorem inner_at (stack : s.stack = front ++ some p :: (mid ++ cell :: rest)) :
    s.stack[front.length + 1 + mid.length]? = some cell := by
  rw [stack, ← List.cons_append, ← List.append_assoc]
  apply cell_at
  simp only [List.length_append, List.length_cons]
  omega

theorem sameName_eq (stack : s.stack = front ++ some p :: (mid ++ some q :: rest))
    (alive : s.strings p = some (name p)) (alive' : s.strings q = some (name q)) :
    s.sameName front.length (front.length + 1 + mid.length) = some (strncmpEq (name p) (name q)) := by
  have here : s.stack[front.length]? = some (some p) := by
    rw [stack]
    exact cell_at rfl
  simp [sameName, here, inner_at stack, alive, alive']

theorem free_setCell (stack : s.stack = front ++ some p :: (mid ++ some q :: rest))
    (alive : s.strings q = some (name q)) :
    ∃ freed, s.free q = some freed ∧
      freed.setCell (front.length + 1 + mid.length) none =
        (s.release [q]).withStack (front ++ some p :: (mid ++ none :: rest)) := by
  refine ⟨s.release [q], free_eq alive, ?_⟩
  have position : (front ++ some p :: mid).length = front.length + 1 + mid.length := by
    simp only [List.length_append, List.length_cons]
    omega
  have cleared := set_at _ rest (some q) position none
  rw [List.append_assoc, List.append_assoc, List.cons_append, List.cons_append] at cleared
  simp only [setCell, withStack, release, stack, cleared]

theorem dedupLoop_eq (stack : s.stack = front ++ some p :: (mid ++ rest))
    (alive : ∀ q ∈ p :: pointers rest, s.strings q = some (name q)) (nodup : (p :: pointers rest).Nodup) :
    s.dedupLoop front.length rest.length (front.length + 1 + mid.length) =
      some ((s.release ((pointers rest).filter fun q => strncmpEq (name p) (name q))).withStack
        (front ++ some p :: (mid ++ withoutSame name p rest))) := by
  induction rest generalizing s mid with
  | nil =>
      have same : s.withStack (front ++ some p :: (mid ++ [])) = s := by rw [← stack]; rfl
      simpa [dedupLoop, pointers, withoutSame] using same.symm
  | cons cell rest ih =>
      have here := inner_at stack
      have shift (cell : Option Nat) :
          front.length + 1 + mid.length + 1 = front.length + 1 + (mid ++ [cell]).length := by
        rw [List.length_append, List.length_singleton, Nat.add_assoc]
      cases cell with
      | none =>
          have later := @ih s (mid ++ [none]) (by simpa using stack) alive nodup
          rw [← shift none] at later
          simpa [dedupLoop, here, pointers, withoutSame] using later
      | some q =>
          have aliveP := alive p List.mem_cons_self
          have aliveQ : s.strings q = some (name q) := alive q (by simp [pointers])
          have apart : p ∉ pointers rest ∧ q ∉ pointers rest ∧ p ≠ q ∧ (pointers rest).Nodup := by
            simp [pointers] at nodup ⊢
            tauto
          have compared := sameName_eq stack aliveP aliveQ
          cases same : strncmpEq (name p) (name q) with
          | false =>
              have later := @ih s (mid ++ [some q]) (by simpa using stack)
                (fun r mem => alive r (by simp [pointers] at mem ⊢; tauto))
                (List.nodup_cons.mpr ⟨apart.1, apart.2.2.2⟩)
              rw [← shift (some q)] at later
              simpa [dedupLoop, here, compared, same, pointers, withoutSame] using later
          | true =>
              obtain ⟨freed, frees, cleared⟩ := free_setCell stack aliveQ
              have kept (r : Nat) (mem : r ∈ p :: pointers rest) :
                  (freed.setCell (front.length + 1 + mid.length) none).strings r = some (name r) := by
                have other : r ≠ q := by
                  rcases List.mem_cons.mp mem with rfl | later
                  · exact apart.2.2.1
                  · exact ne_of_mem_of_not_mem later apart.2.1
                rw [cleared]
                simp only [withStack, release, List.mem_singleton, if_neg other]
                exact alive r (by simp [pointers] at mem ⊢; tauto)
              have later := @ih (freed.setCell (front.length + 1 + mid.length) none) (mid ++ [none])
                (by rw [cleared]; simp [withStack]) kept
                (List.nodup_cons.mpr ⟨apart.1, apart.2.2.2⟩)
              rw [← shift none, cleared] at later
              simp only [List.length_cons, dedupLoop, here, compared, same, frees, cleared,
                Option.bind_eq_bind, Option.bind_some, if_true]
              rw [later]
              simp [release_release, pointers, withoutSame, same]

/-! ## The outer loop -/

theorem firsts_cons : firsts name search (p :: ps) =
    if (search (name p)).okAnd Option.isSome then
      p :: firsts name search (ps.filter fun q => strncmpEq (name q) (name p) = false)
    else firsts name search (ps.filter fun q => strncmpEq (name q) (name p) = false) := by
  unfold firsts
  rw [List.eraseDupsBy_cons, List.filter_cons]

theorem firsts_sublist (name : Nat → Path) (search : Path → Outcome Fault (Option FileId)) (ps : List Nat) :
    (firsts name search ps).Sublist ps :=
  List.filter_sublist.trans (eraseDupsBy_sublist _ ps)

theorem released_kept (apart : p ∉ ps) {ps' : List Nat}
    (rest : ps' = ps.filter fun q => strncmpEq (name q) (name p) = false) (a : Nat) :
    a ∈ ps.filter (fun q => strncmpEq (name p) (name q)) ++
        ps'.filter (· ∉ firsts name search ps') ↔
      a ∈ (p :: ps).filter (· ∉ p :: firsts name search ps') := by
  have inside : a ∈ firsts name search ps' → a ∈ ps' := fun mem => (firsts_sublist _ _ ps').subset mem
  have member : a ∈ ps' ↔ a ∈ ps ∧ strncmpEq (name p) (name a) = false := by
    simp [rest, strncmpEq_comm (name p)]
  have other : a ∈ ps → a ≠ p := fun mem => ne_of_mem_of_not_mem mem apart
  cases same : strncmpEq (name p) (name a) <;>
    simp [same] at member ⊢ <;> tauto

theorem released_dropped {ps' : List Nat}
    (rest : ps' = ps.filter fun q => strncmpEq (name q) (name p) = false) (apart : p ∉ ps) (a : Nat) :
    a ∈ (ps.filter (fun q => strncmpEq (name p) (name q)) ++ [p]) ++
        ps'.filter (· ∉ firsts name search ps') ↔
      a ∈ (p :: ps).filter (· ∉ firsts name search ps') := by
  have inside : a ∈ firsts name search ps' → a ∈ ps' := fun mem => (firsts_sublist _ _ ps').subset mem
  have member : a ∈ ps' ↔ a ∈ ps ∧ strncmpEq (name p) (name a) = false := by
    simp [rest, strncmpEq_comm (name p)]
  have other : a ∈ ps → a ≠ p := fun mem => ne_of_mem_of_not_mem mem apart
  cases same : strncmpEq (name p) (name a) <;>
    simp [same] at member ⊢ <;> tauto

theorem move_eq (gap : Nat) (stack : s.stack = front ++ (List.replicate gap none ++ some p :: cells)) :
    (if front.length < front.length + gap then
        (s.setCell front.length (some p)).setCell (front.length + gap) none
      else s.setCell front.length (some p)) =
      s.withStack (front ++ some p :: (List.replicate gap none ++ cells)) := by
  cases gap with
  | zero => simp [setCell, withStack, stack]
  | succ gap =>
      have slide : List.replicate gap none ++ none :: cells = List.replicate (gap + 1) none ++ cells := by
        simp [List.replicate_succ']
      rw [← slide]
      simp [setCell, withStack, stack, List.replicate_succ]

theorem drop_eq (gap : Nat) (stack : s.stack = front ++ (List.replicate gap none ++ some p :: cells))
    (alive : s.strings p = some (name p)) :
    ∃ freed, s.free p = some freed ∧ freed.setCell (front.length + gap) none =
      (s.release [p]).withStack (front ++ (List.replicate (gap + 1) none ++ cells)) := by
  refine ⟨s.release [p], free_eq alive, ?_⟩
  have cleared := set_at _ cells (some p)
    (show (front ++ List.replicate gap none).length = front.length + gap by simp) none
  simp only [setCell, withStack, release, stack]
  rw [List.append_assoc] at cleared
  simp [cleared, List.replicate_succ']

theorem defragLoop_eq (kept : List Nat) (gap n : Nat) (left : cells.length = n)
    (stack : s.stack = kept.map some ++ (List.replicate gap none ++ cells))
    (alive : ∀ q ∈ pointers cells, s.strings q = some (name q)) (nodup : (pointers cells).Nodup)
    (total : ∀ name, ∃ r, search name = .ok r) :
    s.defragLoop search n (kept.length + gap) kept.length =
      some ((s.release ((pointers cells).filter (· ∉ firsts name search (pointers cells)))).withStack
        ((kept ++ firsts name search (pointers cells)).map some ++
          List.replicate (gap + n - (firsts name search (pointers cells)).length) none),
        (kept ++ firsts name search (pointers cells)).length) := by
  induction n generalizing s gap kept cells with
  | zero =>
      obtain rfl := List.length_eq_zero_iff.mp left
      have same : s.withStack (kept.map some ++ List.replicate gap none) = s := by
        rw [List.append_nil] at stack
        rw [← stack]
        rfl
      simp [defragLoop, pointers, firsts, same]
  | succ n ih =>
      obtain ⟨cell, cells, rfl⟩ := List.exists_cons_of_length_eq_add_one left
      have remaining : cells.length = n := Nat.succ.inj left
      have position : (kept.map some ++ List.replicate gap none).length = kept.length + gap := by simp
      have here : s.stack[kept.length + gap]? = some cell := by
        rw [stack, ← List.append_assoc]
        exact cell_at position
      have wider (cells : List (Option Nat)) : List.replicate gap none ++ none :: cells =
          List.replicate (gap + 1) none ++ cells := by
        simp [List.replicate_succ']
      have count : gap + (n + 1) = gap + 1 + n := Nat.add_right_comm gap n 1
      cases cell with
      | none =>
          have later := ih kept (gap + 1) remaining (by rw [stack, wider]) alive nodup
          rw [count]
          simp only [defragLoop, here, Option.bind_eq_bind, Option.bind_some]
          exact later
      | some p =>
          have apart : p ∉ pointers cells := (List.nodup_cons.mp nodup).1
          have distinct : (pointers cells).Nodup := (List.nodup_cons.mp nodup).2
          have rest := pointers_withoutSame name p cells
          have short : (withoutSame name p cells).length = n := by simp [withoutSame, remaining]
          have deduped := @dedupLoop_eq s name p _ [] cells (stack.trans (List.append_assoc ..).symm)
            alive nodup
          rw [position, remaining, List.length_nil, Nat.add_zero, List.nil_append, List.append_assoc]
            at deduped
          obtain ⟨t, same⟩ : ∃ t, ((s.release ((pointers cells).filter fun q =>
              strncmpEq (name p) (name q))).withStack (kept.map some ++ (List.replicate gap none ++
                some p :: withoutSame name p cells))) = t := ⟨_, rfl⟩
          have stackT : t.stack = kept.map some ++ (List.replicate gap none ++
              some p :: withoutSame name p cells) := by rw [← same]; rfl
          have aliveT (q : Nat) (mem : q = p ∨ q ∈ pointers (withoutSame name p cells)) :
              t.strings q = some (name q) := by
            have kept : ¬q ∈ (pointers cells).filter fun q => strncmpEq (name p) (name q) := by
              rw [rest] at mem
              simp only [List.mem_filter, decide_eq_true_eq, strncmpEq_comm (name q)] at mem ⊢
              rcases mem with rfl | ⟨-, differs⟩
              · exact fun both => apart both.1
              · simp [differs]
            rw [← same]
            simp only [withStack, release, if_neg kept]
            apply alive
            rw [rest] at mem
            simp only [List.mem_filter, pointers_some, List.mem_cons] at mem ⊢
            tauto
          rw [same] at deduped
          have distinctT : (pointers (withoutSame name p cells)).Nodup := by
            rw [rest]
            exact distinct.filter _
          obtain ⟨found, searched⟩ := total (name p)
          simp only [defragLoop, here, deduped, aliveT p (.inl rfl), searched, Option.bind_eq_bind,
            Option.bind_some, pointers_some, firsts_cons, ← rest]
          cases found with
          | none =>
              obtain ⟨freed, frees, cleared⟩ := drop_eq gap stackT
                (aliveT p (.inl rfl))
              rw [List.length_map] at cleared
              have later := ih (s := (t.release [p]).withStack (kept.map some ++
                (List.replicate (gap + 1) none ++ withoutSame name p cells))) kept (gap + 1) short rfl
                (fun q mem => by
                  have other : q ≠ p := by
                    rintro rfl
                    rw [rest] at mem
                    exact apart (List.mem_filter.mp mem).1
                  simp only [withStack, release, List.mem_singleton, if_neg other]
                  exact aliveT q (.inr mem)) distinctT
              have unknown : ¬(Outcome.ok none : Outcome Fault (Option FileId)).okAnd Option.isSome = true := by
                decide
              simp only [frees, Option.bind_some, cleared, if_neg unknown]
              refine Eq.trans later ?_
              rw [← same, count, ← release_congr (released_dropped rest apart), ← release_release,
                ← release_release]
              rfl
          | some f =>
              have moved := move_eq gap stackT
              rw [List.length_map] at moved
              have later := ih (s := t.withStack ((kept ++ [p]).map some ++
                (List.replicate gap none ++ withoutSame name p cells))) (kept ++ [p]) gap short rfl
                (fun q mem => aliveT q (.inr mem)) distinctT
              have known : (Outcome.ok (some f) : Outcome Fault (Option FileId)).okAnd Option.isSome = true := rfl
              have shape : (kept ++ [p]).map some ++ (List.replicate gap none ++ withoutSame name p cells) =
                  kept.map some ++ some p :: (List.replicate gap none ++ withoutSame name p cells) := by
                simp
              have next : (kept ++ [p]).length + gap = kept.length + gap + 1 := by
                rw [List.length_append, List.length_singleton, Nat.add_right_comm]
              have spare : gap + (n + 1) - (firsts name search (pointers (withoutSame name p cells))).length.succ =
                  gap + n - (firsts name search (pointers (withoutSame name p cells))).length :=
                Nat.add_sub_add_right (gap + n) 1 _
              have names : kept ++ p :: firsts name search (pointers (withoutSame name p cells)) =
                  (kept ++ [p]) ++ firsts name search (pointers (withoutSame name p cells)) := by
                simp
              rw [shape, next, List.length_append, List.length_singleton] at later
              simp only [moved, if_pos known]
              rw [later, ← same, ← release_congr (released_kept apart rest), ← release_release, names,
                List.length_cons, spare]
              rfl

end

/-! ## The whole function -/

/-- The array has `max` cells, and every string belongs to one of them alone. -/
structure Owned (s : NameArray) : Prop where
  length : s.stack.length = s.max
  allocated : ∀ p, some p ∈ s.stack → s.strings p ≠ none
  apart : (pointers s.stack).Nodup

/-- The names in the cells, from cell 0 up. -/
def names (s : NameArray) : List Path := (pointers s.stack).filterMap s.strings

/-- The array `s'` is `s` compacted; two names are the same when `strncmp` finds no difference. -/
structure Compacted (cfg : Config) (σ : Store) (s s' : NameArray) : Prop where
  filled : ∀ i < s'.top, ∃ p name f, s'.stack[i]? = some (some p) ∧ s'.strings p = some name ∧
    σ.lookup cfg name = .ok (some f)
  empty : ∀ i, s'.top ≤ i → i < s.max → s'.stack[i]? = some none
  distinct : s'.names.Pairwise fun a b => strncmpEq a b = false
  survivors : s'.names = (s.names.eraseDupsBy strncmpEq).filter (σ.knows cfg)
  kept : (pointers s'.stack).Sublist (pointers s.stack)
  freed : ∀ p, s'.strings p =
    if some p ∈ s.stack ∧ some p ∉ s'.stack then none else s.strings p

section
variable {cfg : Config} {σ : Store} {s s' : NameArray} {ps : List Nat}

def nameOf (s : NameArray) (p : Nat) : Path := (s.strings p).getD []

theorem mem_pointers {cells : List (Option Nat)} {p : Nat} : p ∈ pointers cells ↔ some p ∈ cells := by
  simp [pointers]

theorem Owned.strings (owned : s.Owned) {p : Nat} (mem : p ∈ pointers s.stack) :
    s.strings p = some (s.nameOf p) := by
  obtain ⟨name, alive⟩ := Option.ne_none_iff_exists'.mp (owned.allocated p (mem_pointers.mp mem))
  simp [nameOf, alive]

theorem Owned.names (owned : s.Owned) : s.names = (pointers s.stack).map s.nameOf := by
  rw [NameArray.names, ← List.filterMap_eq_map]
  exact List.filterMap_congr fun p mem => owned.strings mem

theorem map_firsts (name : Nat → Path) (ps : List Nat) :
    (firsts name (σ.lookup cfg) ps).map name =
      ((ps.map name).eraseDupsBy strncmpEq).filter (σ.knows cfg) := by
  rw [eraseDupsBy_map, List.filter_map]
  rfl

def leaving (s : NameArray) (live : List Nat) : NameArray where
  strings p := if p ∈ (pointers s.stack).filter (· ∉ live) then none else s.strings p
  max := s.max
  top := live.length
  stack := live.map some ++ List.replicate (s.max - live.length) none

theorem fileStackDefrag_eq (owned : s.Owned) {search : Path → Outcome Fault (Option FileId)}
    (total : ∀ name, ∃ r, search name = .ok r) :
    s.fileStackDefrag search = some (s.leaving (firsts s.nameOf search (pointers s.stack))) := by
  have looped := defragLoop_eq (s := s) [] 0 s.max owned.length rfl
    (fun p mem => owned.strings mem) owned.apart total
  simp only [List.length_nil, Nat.zero_add, List.nil_append] at looped
  simp only [fileStackDefrag, looped, Option.bind_eq_bind, Option.bind_some]
  rfl

section
variable {live : List Nat}

@[simp] theorem pointers_leaving (s : NameArray) (live : List Nat) :
    pointers (s.leaving live).stack = live := by
  simp [leaving, pointers, List.filterMap_append]

theorem Owned.strings_leaving (owned : s.Owned) (sublist : live.Sublist (pointers s.stack)) {p : Nat}
    (mem : p ∈ live) : (s.leaving live).strings p = some (s.nameOf p) := by
  have kept : p ∉ (pointers s.stack).filter (· ∉ live) := by simp [mem]
  simp only [leaving, if_neg kept]
  exact owned.strings (sublist.subset mem)

theorem Owned.names_leaving (owned : s.Owned) (sublist : live.Sublist (pointers s.stack)) :
    (s.leaving live).names = live.map s.nameOf := by
  rw [NameArray.names, pointers_leaving, ← List.filterMap_eq_map]
  exact List.filterMap_congr fun p mem => owned.strings_leaving sublist mem

theorem leaving_below {i : Nat} (inside : i < live.length) :
    (s.leaving live).stack[i]? = some (some (live.get ⟨i, inside⟩)) := by
  simp [leaving, List.getElem?_append_left, inside]

theorem leaving_above {i : Nat} (above : live.length ≤ i) (below : i < s.max) :
    (s.leaving live).stack[i]? = some none := by
  have spare : i - live.length < s.max - live.length := Nat.sub_lt_sub_right above below
  simp [leaving, List.getElem?_append_right, above, spare]

end

theorem Owned.compacted (owned : s.Owned)
    (live : List Nat) (same : firsts s.nameOf (σ.lookup cfg) (pointers s.stack) = live) :
    Compacted cfg σ s (s.leaving live) := by
  have sublist : live.Sublist (pointers s.stack) := same ▸ firsts_sublist _ _ _
  have survivors : (s.leaving live).names = (s.names.eraseDupsBy strncmpEq).filter (σ.knows cfg) := by
    rw [owned.names_leaving sublist, owned.names, ← map_firsts, same]
  have known (p : Nat) (mem : p ∈ live) : ∃ f, σ.lookup cfg (s.nameOf p) = .ok (some f) := by
    rw [← same, firsts, List.mem_filter] at mem
    exact Store.knows_iff.mp mem.2
  refine ⟨fun i inside => ?_, fun i above below => leaving_above above below, ?_, survivors, ?_,
    fun p => ?_⟩
  · have mem : live.get ⟨i, inside⟩ ∈ live := List.get_mem live ⟨i, inside⟩
    obtain ⟨f, found⟩ := known _ mem
    exact ⟨_, _, f, leaving_below inside, owned.strings_leaving sublist mem, found⟩
  · rw [survivors]
    refine ((pairwise_eraseDupsBy strncmpEq _).filter _).imp fun {a b} other => ?_
    rw [strncmpEq_comm]
    exact other
  · rw [pointers_leaving]
    exact sublist
  · have released : p ∈ (pointers s.stack).filter (· ∉ live) ↔
        some p ∈ s.stack ∧ some p ∉ (s.leaving live).stack := by
      rw [← mem_pointers, ← mem_pointers, pointers_leaving]
      simp
    exact if_congr released rfl rfl

/-! ## The stack of names -/

/-- The array as the stack that the worker threads see. -/
def toStack (s : NameArray) : FileStack := ⟨s.max, s.top, s.stack.map fun cell => cell.bind s.strings⟩

theorem names_toStack (s : NameArray) : s.toStack.stack.filterMap id = s.names := by
  simp only [toStack, NameArray.names, pointers, List.filterMap_map, List.filterMap_filterMap]
  rfl

/-- On the stack of names, the call is the compaction that a worker runs. -/
theorem Owned.toStack_leaving (owned : s.Owned) (here : σ.fstack = s.toStack) :
    (s.leaving (firsts s.nameOf (σ.lookup cfg) (pointers s.stack))).toStack =
      σ.fstack.holding (σ.liveNames cfg) := by
  have sublist := firsts_sublist s.nameOf (σ.lookup cfg) (pointers s.stack)
  have live : σ.liveNames cfg = (firsts s.nameOf (σ.lookup cfg) (pointers s.stack)).map s.nameOf := by
    rw [map_firsts, Store.liveNames, Store.compact, here, names_toStack, owned.names]
  have cells : ((firsts s.nameOf (σ.lookup cfg) (pointers s.stack)).map some).map
      (fun cell => cell.bind (s.leaving (firsts s.nameOf (σ.lookup cfg) (pointers s.stack))).strings) =
      (firsts s.nameOf (σ.lookup cfg) (pointers s.stack)).map (some ∘ s.nameOf) := by
    rw [List.map_map]
    exact List.map_congr_left fun p mem => owned.strings_leaving sublist mem
  rw [live, here]
  simp only [toStack, FileStack.holding, List.length_map, List.map_map, owned.length]
  congr 1
  show List.map _ (List.map some _ ++ List.replicate _ none) = _
  rw [List.map_append, cells, List.map_replicate]
  rfl

end

/-- Whatever the array holds and wherever `top` is, the call ends with the array compacted. -/
theorem fileStackDefrag_compacts {cfg : Config} {σ : Store} {s : NameArray} (owned : s.Owned)
    (alive : ∀ f ∈ σ.recorded, σ.files f ≠ none) :
    ∃ s', s.fileStackDefrag (σ.lookup cfg) = some s' ∧ Compacted cfg σ s s' :=
  ⟨_, fileStackDefrag_eq owned (Store.lookup_total alive), owned.compacted _ rfl⟩

def longName (last : UInt8) : Path := List.replicate 256 97 ++ [last]

/-- A store with two records whose names differ in byte 257. -/
def longStore : Store :=
  let file last : MemFile := ⟨[], 0, longName last, 0, []⟩
  { memorySetup smallConfig with
    table := [[⟨0, hashKey (longName 98)⟩, ⟨1, hashKey (longName 99)⟩]]
    files := fun f => if f = 0 then some (file 98) else if f = 1 then some (file 99) else none }

def longArray : NameArray :=
  ⟨fun p => if p = 0 then some (longName 98) else if p = 1 then some (longName 99) else none, 3, 2,
    [some 0, some 1, none]⟩

theorem longArray_loses :
    (longArray.fileStackDefrag (longStore.lookup smallConfig)).map NameArray.names =
        some [longName 98] ∧
      longArray.names.filter (longStore.knows smallConfig) = [longName 98, longName 99] := by
  decide +kernel

theorem fileStackDefrag_compacts_example :
    ∃ s', longArray.fileStackDefrag (longStore.lookup smallConfig) = some s' ∧
      Compacted smallConfig longStore longArray s' := by
  have owned : longArray.Owned := by
    refine ⟨rfl, fun p mem => ?_, by decide⟩
    rcases List.mem_cons.mp mem with same | mem
    · cases same
      decide
    · rcases List.mem_cons.mp mem with same | mem
      · cases same
        decide
      · simp at mem
  exact fileStackDefrag_compacts owned (by decide +kernel)

end NameArray

end FileServer
