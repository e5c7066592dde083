import Mathlib.Data.List.Basic
import Mathlib.Data.List.Forall2

/-!
# Stacks of names

A stack of names, the topmost first, over a directory of the things they lead to. Things are evicted
through the topmost name that leads to one; a name that is on top can be passed over.
-/

namespace FileServer

section
variable {α : Type} {r : α → α → Bool}

theorem eraseDupsBy_sublist (r : α → α → Bool) : (names : List α) → (names.eraseDupsBy r).Sublist names
  | [] => .slnil
  | name :: names => by
      rw [List.eraseDupsBy_cons]
      exact ((eraseDupsBy_sublist r (names.filter _)).trans List.filter_sublist).cons_cons name
termination_by names => names.length
decreasing_by exact Nat.lt_succ_of_le (List.length_filter_le ..)

theorem exists_mem_eraseDupsBy (r : α → α → Bool) {x : α} : {names : List α} → x ∈ names →
    ∃ y ∈ names.eraseDupsBy r, y = x ∨ r x y = true
  | name :: names, mem => by
      rw [List.eraseDupsBy_cons]
      by_cases same : r x name = true
      · exact ⟨name, List.mem_cons_self, .inr same⟩
      · rcases List.mem_cons.mp mem with rfl | later
        · exact ⟨x, List.mem_cons_self, .inl rfl⟩
        · have kept : x ∈ names.filter fun b => r b name = false :=
            List.mem_filter.mpr ⟨later, by simpa using same⟩
          obtain ⟨y, mem', same'⟩ := exists_mem_eraseDupsBy r kept
          exact ⟨y, List.mem_cons_of_mem name mem', same'⟩
termination_by names => names.length
decreasing_by exact Nat.lt_succ_of_le (List.length_filter_le ..)

theorem pairwise_eraseDupsBy (r : α → α → Bool) : (names : List α) →
    (names.eraseDupsBy r).Pairwise fun a b => r b a = false
  | [] => .nil
  | name :: names => by
      rw [List.eraseDupsBy_cons]
      refine .cons (fun other mem => ?_) (pairwise_eraseDupsBy r (names.filter _))
      simpa using List.of_mem_filter ((eraseDupsBy_sublist r _).subset mem)
termination_by names => names.length
decreasing_by exact Nat.lt_succ_of_le (List.length_filter_le ..)

theorem eraseDupsBy_map {β : Type} (f : β → α) (r : α → α → Bool) : (xs : List β) →
    (xs.map f).eraseDupsBy r = (xs.eraseDupsBy fun x y => r (f x) (f y)).map f
  | [] => rfl
  | x :: xs => by
      rw [List.map_cons, List.eraseDupsBy_cons, List.eraseDupsBy_cons, List.filter_map, List.map_cons]
      exact congrArg (f x :: ·) (eraseDupsBy_map f r (xs.filter _))
termination_by xs => xs.length
decreasing_by exact Nat.lt_succ_of_le (List.length_filter_le ..)

theorem eraseDupsBy_of_pairwise {names : List α} (distinct : names.Pairwise fun a b => r b a = false) :
    names.eraseDupsBy r = names := by
  induction distinct with
  | nil => rfl
  | @cons name names apart distinct ih =>
      rw [List.eraseDupsBy_cons, List.filter_eq_self.mpr fun other mem => by simpa using apart other mem, ih]

theorem eraseDupsBy_append (r : α → α → Bool) (symm : ∀ {a b}, r a b = true → r b a = true)
    (trans : ∀ {a b c}, r a b = true → r b c = true → r a c = true) : (names others : List α) →
    (names ++ others).eraseDupsBy r = names.eraseDupsBy r ++
      (others.filter fun b => names.all fun a => !r b a).eraseDupsBy r
  | [], others => by simp
  | name :: names, others => by
      have rest := eraseDupsBy_append r symm trans (names.filter fun b => r b name = false)
        (others.filter fun b => r b name = false)
      have same : ((others.filter fun b => r b name = false).filter fun b =>
          (names.filter fun b => r b name = false).all fun a => !r b a) =
          others.filter fun b => (name :: names).all fun a => !r b a := by
        rw [List.filter_filter]
        refine List.filter_congr fun b mem => ?_
        cases apart : r b name with
        | true => simp [apart]
        | false =>
            have clash (a : α) (alike : r a name = true) : r b a = false := by
              by_contra same
              rw [trans (by simpa using same) alike] at apart
              cases apart
            simp only [apart, List.all_filter, List.all_cons, Bool.not_false, Bool.true_and, decide_true,
              Bool.and_true]
            refine congrArg _ (funext fun a => ?_)
            cases alike : r a name with
            | true => simp [clash a alike]
            | false => simp
      rw [List.cons_append, List.eraseDupsBy_cons, List.eraseDupsBy_cons, List.filter_append, rest, same]
      rfl
termination_by names => names.length
decreasing_by exact Nat.lt_succ_of_le (List.length_filter_le ..)

end

/-- `find d n` is what the name leads to, `remove d f` is the directory without it, and `same` is how names
are compared. `read d a` is the name, if any, that the argument `a` stands for, unless it cannot be read. -/
structure Directory (D N F A : Type) where
  find : D → N → Option F
  remove : D → F → D
  same : N → N → Bool
  read : D → A → Option (Option N)

namespace Directory
variable {D N F A : Type}

structure Lawful (dir : Directory D N F A) : Prop where
  refl : ∀ n, dir.same n n = true
  symm : ∀ {m n}, dir.same m n = true → dir.same n m = true
  trans : ∀ {l m n}, dir.same l m = true → dir.same m n = true → dir.same l n = true
  other : ∀ n, ∃ m, dir.same n m = false
  spelled : ∀ p, ∃ a, ∀ d, dir.read d a = some p
  find_same : ∀ {d m n f}, dir.find d m = some f → dir.find d n = some f → dir.same m n = true
  find_remove_none : ∀ {d n} f, dir.find d n = none → dir.find (dir.remove d f) n = none
  find_remove_ne : ∀ {d n f g}, dir.find d n = some g → g ≠ f → dir.find (dir.remove d f) n = some g

variable (dir : Directory D N F A)

/-- The topmost thing, and the cells below its name. -/
def pop (d : D) : List (Option N) → Option (F × List (Option N))
  | [] => none
  | none :: cells => pop d cells
  | some n :: cells => match dir.find d n with
      | some f => some (f, cells)
      | none => pop d cells

/-- The topmost thing, and all cells without its name. -/
def clear (d : D) : List (Option N) → Option (F × List (Option N))
  | [] => none
  | none :: cells => (clear d cells).map fun (f, rest) => (f, none :: rest)
  | some n :: cells => match dir.find d n with
      | some f => some (f, none :: cells)
      | none => (clear d cells).map fun (f, rest) => (f, some n :: rest)

/-- The thing evicted, passing over the topmost name if it is `p`, and the cells left. -/
def evict (d : D) : Option N → List (Option N) → Option (F × List (Option N))
  | none, cells => dir.pop d cells
  | some _, [] => none
  | some _, none :: _ => none
  | some p, some n :: cells =>
      if dir.same n p then (dir.clear d cells).map fun (f, rest) => (f, some n :: rest)
      else dir.pop d (some n :: cells)

/-- What one eviction after the other evicts, for these arguments, until one fails. -/
def evictions : List A → D → List (Option N) → List F
  | [], _, _ => []
  | a :: args, d, cells => match (dir.read d a).bind fun p => dir.evict d p cells with
      | none => []
      | some (f, rest) => f :: evictions args (dir.remove d f) rest

/-- The names in the cells, the first of those that are the same, which lead to something. -/
def compact (d : D) (cells : List (Option N)) : List N :=
  ((cells.filterMap id).eraseDupsBy dir.same).filter fun n => (dir.find d n).isSome

variable {dir} {d : D} {n : N} {f : F} {cells lower rest : List (Option N)} {names : List N}

/-! ## Scans -/

theorem pop_eq_none : dir.pop d cells = none ↔ ∀ n, some n ∈ cells → dir.find d n = none := by
  induction cells with
  | nil => simp [pop]
  | cons cell cells ih =>
      cases cell with
      | none => simp [pop, ih]
      | some n => cases found : dir.find d n <;> simp [pop, found, ih]

theorem clear_eq_none : dir.clear d cells = none ↔ ∀ n, some n ∈ cells → dir.find d n = none := by
  induction cells with
  | nil => simp [clear]
  | cons cell cells ih =>
      cases cell with
      | none => simp [clear, ih]
      | some n => cases found : dir.find d n <;> simp [clear, found, ih]

theorem pop_fst_eq_clear_fst : (dir.pop d cells).map Prod.fst = (dir.clear d cells).map Prod.fst := by
  induction cells with
  | nil => rfl
  | cons cell cells ih =>
      cases cell with
      | none => simp [pop, clear, Option.map_map, Function.comp_def, ih]
      | some n =>
          cases found : dir.find d n <;> simp [pop, clear, found, Option.map_map, Function.comp_def, ih]

theorem clear_found (cleared : dir.clear d cells = some (f, rest)) :
    ∃ n, some n ∈ cells ∧ dir.find d n = some f := by
  induction cells generalizing rest with
  | nil => cases cleared
  | cons cell cells ih =>
      cases cell with
      | none =>
          obtain ⟨⟨g, rest'⟩, below, same⟩ := Option.map_eq_some_iff.mp cleared
          cases same
          obtain ⟨n, mem, found⟩ := ih below
          exact ⟨n, List.mem_cons_of_mem _ mem, found⟩
      | some n =>
          cases found : dir.find d n with
          | none =>
              simp only [clear, found] at cleared
              obtain ⟨⟨g, rest'⟩, below, same⟩ := Option.map_eq_some_iff.mp cleared
              cases same
              obtain ⟨m, mem, leads⟩ := ih below
              exact ⟨m, List.mem_cons_of_mem _ mem, leads⟩
          | some g =>
              simp only [clear, found] at cleared
              cases cleared
              exact ⟨n, List.mem_cons_self, found⟩

theorem pop_append (dead : ∀ n, some n ∈ lower → dir.find d n = none) :
    dir.pop d (cells ++ lower) = (dir.pop d cells).map fun (f, rest) => (f, rest ++ lower) := by
  induction cells with
  | nil => exact pop_eq_none.mpr dead
  | cons cell cells ih =>
      cases cell with
      | none => simpa [pop] using ih
      | some n => cases found : dir.find d n <;> simp [pop, found, ih]

theorem clear_append (dead : ∀ n, some n ∈ lower → dir.find d n = none) :
    dir.clear d (cells ++ lower) = (dir.clear d cells).map fun (f, rest) => (f, rest ++ lower) := by
  induction cells with
  | nil => exact clear_eq_none.mpr dead
  | cons cell cells ih =>
      cases cell with
      | none => simp [clear, ih, Option.map_map, Function.comp_def]
      | some n => cases found : dir.find d n <;> simp [clear, found, ih, Option.map_map, Function.comp_def]

theorem evict_append (p : Option N) (dead : ∀ n, some n ∈ lower → dir.find d n = none) :
    dir.evict d p (cells ++ lower) = (dir.evict d p cells).map fun (f, rest) => (f, rest ++ lower) := by
  cases p with
  | none => exact pop_append dead
  | some p =>
      cases cells with
      | nil =>
          cases lower with
          | nil => rfl
          | cons cell lower =>
              cases cell with
              | none => rfl
              | some n =>
                  have scanned : dir.clear d lower = none :=
                    clear_eq_none.mpr fun m mem => dead m (List.mem_cons_of_mem _ mem)
                  simp [evict, scanned, pop_eq_none.mpr dead]
      | cons cell cells =>
          cases cell with
          | none => rfl
          | some n =>
              have popped : dir.pop d (some n :: (cells ++ lower)) =
                  (dir.pop d (some n :: cells)).map fun (f, rest) => (f, rest ++ lower) := by
                rw [← List.cons_append]
                exact pop_append dead
              cases passes : dir.same n p <;>
                simp [evict, passes, popped, clear_append dead, Option.map_map, Function.comp_def]

theorem evictions_append (lawful : dir.Lawful) (args : List A)
    (dead : ∀ n, some n ∈ lower → dir.find d n = none) :
    dir.evictions args d (cells ++ lower) = dir.evictions args d cells := by
  induction args generalizing d cells with
  | nil => rfl
  | cons a args ih =>
      rw [evictions, evictions]
      cases dir.read d a with
      | none => rfl
      | some p =>
          rw [Option.bind_some, Option.bind_some, evict_append p dead]
          cases evicted : dir.evict d p cells with
          | none => rfl
          | some result =>
              exact congrArg (result.1 :: ·) (ih fun n mem => lawful.find_remove_none _ (dead n mem))

/-! ## What the evictions tell of the cells -/

theorem evict_fst (lawful : dir.Lawful) {cells' : List (Option N)} (p : Option N)
    (equal : ∀ args, dir.evictions args d cells = dir.evictions args d cells') :
    (dir.evict d p cells).map Prod.fst = (dir.evict d p cells').map Prod.fst := by
  obtain ⟨a, reads⟩ := lawful.spelled p
  have single (cells : List (Option N)) :
      dir.evictions [a] d cells = ((dir.evict d p cells).map Prod.fst).toList := by
    rw [evictions, reads, Option.bind_some]
    cases dir.evict d p cells <;> rfl
  replace equal := equal [a]
  rw [single, single] at equal
  cases first : dir.evict d p cells <;> cases second : dir.evict d p cells' <;> simp_all

theorem find_of_remove (lawful : dir.Lawful) (f : F) (n : N) :
    dir.find d n = some f ∨ dir.find (dir.remove d f) n = dir.find d n := by
  cases found : dir.find d n with
  | none => exact .inr (lawful.find_remove_none f found)
  | some g =>
      by_cases here : g = f
      · exact .inl (congrArg some here)
      · exact .inr (lawful.find_remove_ne found here)

theorem names_of_evictions (lawful : dir.Lawful) (live : ∀ n ∈ names, ∃ f, dir.find d n = some f)
    (distinct : names.Pairwise fun m n => dir.same m n = false)
    (equal : ∀ args, dir.evictions args d cells = dir.evictions args d (names.map some)) :
    ∃ xs lower, cells = xs.map some ++ lower ∧
      List.Forall₂ (fun x n => ∃ f, dir.find d x = some f ∧ dir.find d n = some f) xs names ∧
      ∀ m, some m ∈ lower → dir.find d m = none ∨ ∃ n ∈ names.dropLast, dir.find d m = dir.find d n := by
  induction names generalizing d cells with
  | nil =>
      have scanned : dir.pop d cells = none := by simpa [evict, pop] using evict_fst lawful none equal
      exact ⟨[], cells, rfl, .nil, fun m mem => .inl (pop_eq_none.mp scanned m mem)⟩
  | cons l names ih =>
      obtain ⟨f, found⟩ := live l List.mem_cons_self
      obtain ⟨apart, distinct⟩ := List.pairwise_cons.mp distinct
      obtain ⟨other, differs⟩ := lawful.other l
      have popped : (dir.pop d cells).map Prod.fst = some f := by
        simpa [evict, pop, found] using evict_fst lawful none equal
      have seen : (dir.evict d (some other) cells).map Prod.fst = some f := by
        simpa [evict, differs, pop, found] using evict_fst lawful (some other) equal
      have own : (dir.evict d (some l) cells).map Prod.fst = (dir.clear d (names.map some)).map Prod.fst := by
        simpa [evict, lawful.refl, Option.map_map, Function.comp_def] using evict_fst lawful (some l) equal
      have apart' : ∀ n ∈ names, dir.find d n ≠ some f := fun n mem leads => by
        simpa [apart n mem] using lawful.find_same found leads
      have avoids : (dir.clear d (names.map some)).map Prod.fst ≠ some f := by
        intro cleared
        obtain ⟨⟨g, rest⟩, found', rfl⟩ := Option.map_eq_some_iff.mp cleared
        obtain ⟨n, mem, leads⟩ := clear_found found'
        exact apart' n (by simpa using mem) leads
      cases cells with
      | nil => cases seen
      | cons cell cells =>
          cases cell with
          | none => cases seen
          | some m =>
              have leads : dir.find d m = some f := by
                cases found' : dir.find d m with
                | some g => simpa [pop, found'] using popped
                | none =>
                    -- a name that leads nowhere would be passed over, or not, for `l` alike
                    rw [pop, found'] at popped
                    have below := pop_fst_eq_clear_fst.symm.trans popped
                    cases passes : dir.same m l with
                    | true =>
                        have first : (dir.evict d (some l) (some m :: cells)).map Prod.fst = some f := by
                          simpa [evict, passes, Option.map_map, Function.comp_def] using below
                        exact absurd (own.symm.trans first) avoids
                    | false =>
                        have first : (dir.evict d (some l) (some m :: cells)).map Prod.fst = some f := by
                          simpa [evict, passes, pop, found'] using popped
                        exact absurd (own.symm.trans first) avoids
              have passes := lawful.find_same leads found
              simp only [evict, passes, if_true, Option.map_map, Function.comp_def] at own
              cases names with
              | nil =>
                  have scanned : dir.clear d cells = none := by simpa [clear] using own
                  exact ⟨[m], cells, rfl, .cons ⟨f, leads, found⟩ .nil,
                    fun n mem => .inl (clear_eq_none.mp scanned n mem)⟩
              | cons l' names =>
                  have kept : ∀ n ∈ l' :: names, dir.find (dir.remove d f) n = dir.find d n := fun n mem =>
                    (find_of_remove lawful f n).resolve_left (apart' n mem)
                  have equal' (args : List A) : dir.evictions args (dir.remove d f) cells =
                      dir.evictions args (dir.remove d f) ((l' :: names).map some) := by
                    obtain ⟨a, reads⟩ := lawful.spelled none
                    have both := equal (a :: args)
                    simp only [evictions, reads, Option.bind_some, evict, pop, leads, found,
                      List.map_cons] at both
                    exact (List.cons.inj both).2
                  obtain ⟨xs, lower, rfl, same, low⟩ := ih (fun n mem => by
                    rw [kept n mem]
                    exact live n (List.mem_cons_of_mem l mem)) distinct equal'
                  have back (n k : N) (mem : k ∈ l' :: names)
                      (same : dir.find (dir.remove d f) n = dir.find (dir.remove d f) k) :
                      dir.find d n = some f ∨ dir.find d n = dir.find d k := by
                    rcases find_of_remove lawful f n with gone | stays
                    · exact .inl gone
                    · exact .inr (stays.symm.trans (same.trans (kept k mem)))
                  obtain ⟨length, each⟩ := List.forall₂_iff_zip.mp same
                  refine ⟨m :: xs, lower, rfl, .cons ⟨f, leads, found⟩
                    (List.forall₂_iff_zip.mpr ⟨length, fun {x n} mem => ?_⟩), fun n mem => ?_⟩
                  · have among := (List.of_mem_zip mem).2
                    obtain ⟨g, leads₁, leads₂⟩ := each mem
                    refine ⟨g, ?_, (kept n among).symm.trans leads₂⟩
                    rcases find_of_remove lawful f x with gone | stays
                    · have clash := lawful.trans (lawful.find_same found gone) (lawful.find_same leads₁ leads₂)
                      rw [apart n among] at clash
                      cases clash
                    · exact stays.symm.trans leads₁
                  · rcases low n mem with none | ⟨k, among, same⟩
                    · rcases find_of_remove lawful f n with gone | stays
                      · exact .inr ⟨l, List.mem_cons_self, gone.trans found.symm⟩
                      · exact .inl (stays.symm.trans none)
                    · rcases back n k (List.dropLast_subset _ among) same with gone | here
                      · exact .inr ⟨l, List.mem_cons_self, gone.trans found.symm⟩
                      · exact .inr ⟨k, List.mem_cons_of_mem l among, here⟩

end Directory

end FileServer
