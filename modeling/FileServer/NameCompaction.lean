import FileServer.NameStack

/-!
# Compaction of a stack of names

A compacted stack has each name that leads to something once. It evicts as the stack does exactly if the
names on top are those already.
-/

namespace FileServer
namespace Directory
variable {D N F A : Type} {dir : Directory D N F A} {d : D} {n : N} {f : F} {cells lower rest : List (Option N)}
  {names : List N}

/-! ## Compaction -/

theorem compact_append (lawful : dir.Lawful) (cells upper : List (Option N)) :
    dir.compact d (cells ++ upper) = dir.compact d cells ++
      (((upper.filterMap id).filter fun n => (cells.filterMap id).all fun m => !dir.same n m).eraseDupsBy
        dir.same).filter fun n => (dir.find d n).isSome := by
  rw [compact, List.filterMap_append, eraseDupsBy_append dir.same lawful.symm lawful.trans,
    List.filter_append]
  rfl

theorem Lawful.eraseDupsBy (lawful : dir.Lawful)
    (distinct : names.Pairwise fun m n => dir.same m n = false) : names.eraseDupsBy dir.same = names :=
  eraseDupsBy_of_pairwise (distinct.imp fun {m n} apart => by
    by_contra same
    rw [lawful.symm (by simpa using same)] at apart
    cases apart)

theorem compact_distinct (lawful : dir.Lawful) (d : D) (cells : List (Option N)) :
    (dir.compact d cells).Pairwise fun m n => dir.same m n = false :=
  ((pairwise_eraseDupsBy dir.same _).filter _).imp fun {m n} apart => by
    by_contra same
    rw [lawful.symm (by simpa using same)] at apart
    cases apart

theorem partner {R : N → N → Prop} {xs ns : List N} {x : N} (same : List.Forall₂ R xs ns) (mem : x ∈ xs) :
    ∃ n ∈ ns, R x n := by
  induction same with
  | nil => cases mem
  | @cons y n xs ns here same ih =>
      rcases List.mem_cons.mp mem with rfl | later
      · exact ⟨n, List.mem_cons_self, here⟩
      · obtain ⟨k, among, related⟩ := ih later
        exact ⟨k, List.mem_cons_of_mem n among, related⟩

theorem partners_distinct (lawful : dir.Lawful) {xs ns : List N}
    (same : List.Forall₂ (fun x n => ∃ f, dir.find d x = some f ∧ dir.find d n = some f) xs ns)
    (distinct : ns.Pairwise fun m n => dir.same m n = false) :
    xs.Pairwise fun m n => dir.same m n = false := by
  induction same with
  | nil => exact .nil
  | @cons x n xs ns here same ih =>
      obtain ⟨apart, distinct⟩ := List.pairwise_cons.mp distinct
      obtain ⟨f, leads, leads'⟩ := here
      refine .cons (fun y mem => ?_) (ih distinct)
      obtain ⟨k, among, g, leadsTo, leadsTo'⟩ := partner same mem
      by_contra alike
      have clash := lawful.trans (lawful.find_same leads' leads)
        (lawful.trans (by simpa using alike) (lawful.find_same leadsTo leadsTo'))
      rw [apart k among] at clash
      cases clash

theorem compact_concat (lawful : dir.Lawful) (cells : List (Option N)) (cell : Option N) :
    dir.compact d (cells ++ [cell]) = dir.compact d cells ↔
      ∀ n, cell = some n → (∃ f, dir.find d n = some f) → ∃ m, some m ∈ cells ∧ dir.same n m = true := by
  rw [compact_append lawful]
  cases cell with
  | none => simp
  | some n =>
      have one (p q : N → Bool) : (((([some n] : List (Option N)).filterMap id).filter p).eraseDupsBy
          dir.same).filter q = if p n = true ∧ q n = true then [n] else [] := by
        cases first : p n <;> cases live : q n <;>
          simp [first, live, List.eraseDupsBy_cons]
      have named : ((cells.filterMap id).all fun m => !dir.same n m) = true ↔
          ¬∃ m, some m ∈ cells ∧ dir.same n m = true := by
        rw [List.all_eq_true]
        constructor
        · rintro all ⟨m, mem, same⟩
          simpa [same] using all m (by simpa using mem)
        · intro first m mem
          cases same : dir.same n m with
          | false => rfl
          | true => exact absurd ⟨m, by simpa using mem, same⟩ first
      rw [one, List.append_right_eq_self, ite_eq_right_iff, named, Option.isSome_iff_exists]
      constructor
      · rintro added n' same found
        cases same
        by_contra first
        cases added ⟨first, found⟩
      · rintro copied ⟨first, found⟩
        exact absurd (copied n rfl found) first

theorem compact_append_eq_iff (lawful : dir.Lawful) (cells upper : List (Option N)) :
    dir.compact d (cells ++ upper) = dir.compact d cells ↔
      ∀ front n back, upper = front ++ some n :: back → (∃ f, dir.find d n = some f) →
        ∃ m, some m ∈ cells ++ front ∧ dir.same n m = true := by
  induction upper generalizing cells with
  | nil => simp
  | cons cell upper ih =>
      have rest := ih (cells ++ [cell])
      have parts := compact_append lawful (d := d) (cells ++ [cell]) upper
      have first := compact_append lawful (d := d) cells [cell]
      rw [List.append_assoc, List.singleton_append] at rest parts
      have both : dir.compact d (cells ++ cell :: upper) = dir.compact d cells ↔
          dir.compact d (cells ++ [cell]) = dir.compact d cells ∧
            dir.compact d (cells ++ cell :: upper) = dir.compact d (cells ++ [cell]) := by
        rw [parts, first]
        simp
      rw [both, compact_concat lawful, rest]
      constructor
      · rintro ⟨here, later⟩ front n back split found
        cases front with
        | nil =>
            obtain ⟨rfl, -⟩ := List.cons.inj split
            simpa using here n rfl found
        | cons cell' front =>
            obtain ⟨rfl, behind⟩ := List.cons.inj split
            simpa using later front n back behind found
      · intro all
        refine ⟨fun n same found => ?_, fun front n back split found => ?_⟩
        · simpa using all [] n upper (by rw [same]; rfl) found
        · simpa using all (cell :: front) n back (by rw [split]; rfl) found

/-- The names that lead to something are the topmost ones, each once, and the cells that are off the stack
add none. -/
structure Packed (dir : Directory D N F A) (d : D) (cells upper lower : List (Option N)) (names : List N) :
    Prop where
  split : cells = lower ++ names.map some
  dead : ∀ n, some n ∈ lower → dir.find d n = none
  live : ∀ n ∈ names, ∃ f, dir.find d n = some f
  distinct : names.Pairwise fun m n => dir.same m n = false
  apart : ∀ n ∈ names, ∀ m, some m ∈ lower → dir.same n m = false
  covered : ∀ front n back, upper = front ++ some n :: back → (∃ f, dir.find d n = some f) →
    ∃ m, some m ∈ cells ++ front ∧ dir.same n m = true

theorem compact_eq_nil (dead : ∀ n, some n ∈ lower → dir.find d n = none) : dir.compact d lower = [] := by
  refine List.filter_eq_nil_iff.mpr fun n mem => ?_
  simp [dead n (by simpa using (eraseDupsBy_sublist _ _).subset mem)]

theorem compact_lower_append (lawful : dir.Lawful) (dead : ∀ n, some n ∈ lower → dir.find d n = none)
    (live : ∀ n ∈ names, ∃ f, dir.find d n = some f)
    (distinct : names.Pairwise fun m n => dir.same m n = false)
    (apart : ∀ n ∈ names, ∀ m, some m ∈ lower → dir.same n m = false) :
    dir.compact d (lower ++ names.map some) = names := by
  have front : (names.map some).filterMap id = names := by
    rw [List.filterMap_map]
    simp
  have first : names.filter (fun n => (lower.filterMap id).all fun m => !dir.same n m) = names := by
    refine List.filter_eq_self.mpr fun n mem => List.all_eq_true.mpr fun m below => ?_
    simp [apart n mem m (by simpa using below)]
  have all : names.filter (fun n => (dir.find d n).isSome) = names :=
    List.filter_eq_self.mpr fun n mem => Option.isSome_iff_exists.mpr (live n mem)
  rw [compact_append lawful, compact_eq_nil dead, front, first, lawful.eraseDupsBy distinct, all,
    List.nil_append]

/-- On top of names that lead nowhere stands exactly the compaction. -/
theorem packed_iff {upper : List (Option N)} (lawful : dir.Lawful) :
    dir.Packed d cells upper lower names ↔ cells = lower ++ names.map some ∧
      (∀ n, some n ∈ lower → dir.find d n = none) ∧ names = dir.compact d (cells ++ upper) := by
  constructor
  · intro packed
    refine ⟨packed.split, packed.dead, ?_⟩
    rw [(compact_append_eq_iff lawful cells upper).mpr packed.covered, packed.split,
      compact_lower_append lawful packed.dead packed.live packed.distinct packed.apart]
  · rintro ⟨split, dead, compacted⟩
    have whole := compact_append lawful (d := d) lower (names.map some ++ upper)
    rw [← List.append_assoc, ← split, ← compacted, compact_eq_nil dead, List.nil_append] at whole
    have live : ∀ n ∈ names, ∃ f, dir.find d n = some f := fun n mem => by
      rw [compacted] at mem
      exact Option.isSome_iff_exists.mp (List.mem_filter.mp mem).2
    have distinct : names.Pairwise fun m n => dir.same m n = false := by
      rw [compacted]
      exact compact_distinct lawful d _
    have apart : ∀ n ∈ names, ∀ m, some m ∈ lower → dir.same n m = false := by
      intro n mem m below
      rw [whole] at mem
      have kept := (eraseDupsBy_sublist _ _).subset (List.mem_filter.mp mem).1
      have all := (List.mem_filter.mp kept).2
      simp only [List.all_eq_true] at all
      simpa using all m (by simpa using below)
    refine ⟨split, dead, live, distinct, apart, (compact_append_eq_iff lawful cells upper).mp ?_⟩
    rw [← compacted, split, compact_lower_append lawful dead live distinct apart]

/-- The cells evict as their compaction does exactly if it is on top of them, and nothing is found below. -/
theorem evictions_eq_compact_iff (lawful : dir.Lawful) (d : D) (cells upper : List (Option N)) :
    (∀ args, dir.evictions args d cells.reverse =
        dir.evictions args d ((dir.compact d (cells ++ upper)).map some).reverse) ↔
      ∃ lower, cells = lower ++ (dir.compact d (cells ++ upper)).map some ∧
        ∀ n, some n ∈ lower → dir.find d n = none := by
  obtain ⟨names, compacted⟩ : ∃ names, dir.compact d (cells ++ upper) = names := ⟨_, rfl⟩
  rw [compacted]
  constructor
  · intro equal
    have live : ∀ n ∈ names.reverse, ∃ f, dir.find d n = some f := by
      intro n mem
      rw [← compacted, List.mem_reverse, compact, List.mem_filter] at mem
      exact Option.isSome_iff_exists.mp mem.2
    have apart := compact_distinct lawful d (cells ++ upper)
    rw [compacted] at apart
    have distinct : names.reverse.Pairwise fun m n => dir.same m n = false :=
      List.pairwise_reverse.mpr (apart.imp fun {m n} apart => by
        by_contra same
        rw [lawful.symm (by simpa using same)] at apart
        cases apart)
    rw [← List.map_reverse] at equal
    obtain ⟨xs, low, split, same, rest⟩ := names_of_evictions lawful live distinct equal
    obtain ⟨length, each⟩ := List.forall₂_iff_zip.mp same
    have cells_eq : cells = low.reverse ++ xs.reverse.map some := by
      rw [← List.reverse_reverse cells, split, List.reverse_append, List.map_reverse]
    have parts := compact_append lawful (d := d) low.reverse (xs.reverse.map some ++ upper)
    rw [← List.append_assoc, ← cells_eq, compacted] at parts
    have none_below : dir.compact d low.reverse = [] := by
      cases first : dir.compact d low.reverse with
      | nil => rfl
      | cons c cs =>
          have mem : c ∈ dir.compact d low.reverse := first ▸ List.mem_cons_self
          obtain ⟨among, leads⟩ := List.mem_filter.mp mem
          obtain ⟨f, leads⟩ := Option.isSome_iff_exists.mp leads
          have inLow : some c ∈ low := by simpa using (eraseDupsBy_sublist _ _).subset among
          rw [first, List.cons_append] at parts
          rcases rest c inLow with none | ⟨k, above, alike⟩
          · cases none.symm.trans leads
          · rw [parts, List.reverse_cons, List.dropLast_concat, List.mem_reverse] at above
            rw [parts] at apart
            have clash := lawful.find_same leads (alike.symm.trans leads)
            rw [(List.pairwise_cons.mp apart).1 k above] at clash
            cases clash
    rw [none_below, List.nil_append] at parts
    have apart_low : ∀ k ∈ names, ∀ m, some m ∈ low → dir.same k m = false := by
      intro k mem m below
      rw [parts] at mem
      have kept := (eraseDupsBy_sublist _ _).subset (List.mem_filter.mp mem).1
      have all := (List.mem_filter.mp kept).2
      simp only [List.all_eq_true] at all
      simpa using all m (by simpa using below)
    have dead : ∀ n, some n ∈ low → dir.find d n = none := by
      intro n mem
      rcases rest n mem with none | ⟨k, above, alike⟩
      · exact none
      · have among : k ∈ names := List.mem_reverse.mp (List.dropLast_subset _ above)
        obtain ⟨f, leads⟩ := live k (List.mem_reverse.mpr among)
        have clash := lawful.find_same leads (alike.trans leads)
        rw [apart_low k among n mem] at clash
        cases clash
    have whole : xs.reverse = names := by
      have kept : xs.reverse.filter (fun n => (low.reverse.filterMap id).all fun m => !dir.same n m) =
          xs.reverse := by
        refine List.filter_eq_self.mpr fun x mem => ?_
        obtain ⟨k, among, f, leads, leads'⟩ := partner same (List.mem_reverse.mp mem)
        refine List.all_eq_true.mpr fun m below => ?_
        have clear := apart_low k (List.mem_reverse.mp among) m (by simpa using below)
        cases alike : dir.same x m with
        | false => rfl
        | true =>
            rw [lawful.trans (lawful.find_same leads' leads) alike] at clear
            cases clear
      have single : xs.reverse.eraseDupsBy dir.same = xs.reverse :=
        eraseDupsBy_of_pairwise (List.pairwise_reverse.mpr (partners_distinct lawful same distinct))
      have all : xs.reverse.filter (fun n => (dir.find d n).isSome) = xs.reverse := by
        refine List.filter_eq_self.mpr fun x mem => ?_
        obtain ⟨k, -, f, leads, -⟩ := partner same (List.mem_reverse.mp mem)
        exact Option.isSome_iff_exists.mpr ⟨f, leads⟩
      have front : (xs.reverse.map some ++ upper).filterMap id = xs.reverse ++ upper.filterMap id := by
        rw [List.filterMap_append, List.filterMap_map]
        simp
      rw [front, List.filter_append, kept, eraseDupsBy_append dir.same lawful.symm lawful.trans, single,
        List.filter_append, all] at parts
      have more : names.length = xs.reverse.length := by rw [List.length_reverse, length, List.length_reverse]
      rw [parts, List.length_append, Nat.add_eq_left, List.length_eq_zero_iff] at more
      rw [parts, more, List.append_nil]
    exact ⟨low.reverse, by rw [cells_eq, whole], fun n mem => dead n (List.mem_reverse.mp mem)⟩
  · rintro ⟨lower, split, dead⟩ args
    rw [split, List.reverse_append]
    exact evictions_append lawful args fun n mem => dead n (List.mem_reverse.mp mem)

/-- The cells evict as their compaction does exactly if they are packed. -/
theorem evictions_compact_iff (lawful : dir.Lawful) (d : D) (cells upper : List (Option N)) :
    (∀ args, dir.evictions args d cells.reverse =
        dir.evictions args d ((dir.compact d (cells ++ upper)).map some).reverse) ↔
      ∃ lower names, dir.Packed d cells upper lower names := by
  rw [evictions_eq_compact_iff lawful]
  constructor
  · rintro ⟨lower, split, dead⟩
    exact ⟨lower, _, (packed_iff lawful).mpr ⟨split, dead, rfl⟩⟩
  · rintro ⟨lower, names, packed⟩
    obtain ⟨split, dead, rfl⟩ := (packed_iff lawful).mp packed
    exact ⟨lower, split, dead⟩

end Directory

end FileServer
