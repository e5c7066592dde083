import FileServer.Model.HashTable
import FileServer.Proof.HashTable

/-!
# The hash table as a map

Every list of the table is well linked, and the table maps each path to a stack of records.
-/

namespace FileServer

/-! ## The operations on a list -/

section
variable {cells : DLCells} {list e : Option Addr} {data : Option Addr} {new a : Addr}
  {as bs : List (Addr × Option Addr)}

theorem dlListAdd_linked (linked : Doubly cells none list as e none) (fresh : cells new = none)
    (nodup : (as.map Prod.fst).Nodup) :
    ∃ cells' e', dlListAdd cells list data new = some (some new, cells') ∧
      Doubly cells' none (some new) ((new, data) :: as) e' none ∧
      ∀ a ≠ new, a ∉ as.map Prod.fst → cells' a = cells a := by
  have apart : new ∉ as.map Prod.fst := fun mem => linked.allocated mem fresh
  cases as with
  | nil =>
      obtain ⟨-, rfl⟩ := linked
      exact ⟨cells.put new ⟨data, none, none⟩, some new, rfl,
        ⟨rfl, none, Function.update_self .., rfl, rfl⟩, fun a other _ => Function.update_of_ne other ..⟩
  | cons x as =>
      obtain ⟨rfl, -⟩ := id linked
      obtain ⟨cells', e', relinked, rest, frame⟩ :=
        (linked.put apart ⟨data, some x.1, none⟩).setPrevOf nodup (some new)
      have first : cells' new = some ⟨data, some x.1, none⟩ :=
        (frame new apart).trans (Function.update_self ..)
      refine ⟨cells', e', ?_, ⟨rfl, some x.1, first, rest⟩, fun a other outside => ?_⟩
      · have linkedNew : (cells.put new ⟨data, none, none⟩).setNext new (some x.1) =
            some (cells.put new ⟨data, some x.1, none⟩) := by
          simp [Cells.setNext, Cells.put]
        simp only [dlListAdd, linkedNew, Option.bind_eq_bind, Option.bind_some]
        exact congrArg (Option.bind · _) relinked
      · exact (frame a outside).trans (Function.update_of_ne other ..)

theorem dlListDeleteCell_linked {before : Addr} {d d' : Option Addr}
    (linked : Doubly cells none list (as ++ [(before, d')] ++ (a, d) :: bs) e none)
    (nodup : ((as ++ [(before, d')] ++ (a, d) :: bs).map Prod.fst).Nodup) :
    ∃ cells' e', dlListDeleteCell cells (some a) = some cells' ∧
      Doubly cells' none list (as ++ [(before, d')] ++ bs) e' none ∧
      ∀ c, c ∉ (as ++ [(before, d')] ++ (a, d) :: bs).map Prod.fst → cells' c = cells c := by
  obtain ⟨b, p, front, rfl, next, cell, back⟩ := Doubly.append_iff.mp linked
  obtain ⟨rfl, b', beforeCell⟩ := front.last
  rw [List.map_append] at nodup
  obtain ⟨nodupFront, nodupBack, separate⟩ := List.nodup_append.mp nodup
  obtain ⟨aBack, nodupBack⟩ := List.nodup_cons.mp nodupBack
  have inFront : before ∈ (as ++ [(before, d')]).map Prod.fst := by simp
  have aFront : a ∉ (as ++ [(before, d')]).map Prod.fst := fun mem =>
    separate a mem a List.mem_cons_self rfl
  have frontBack : ∀ c ∈ (as ++ [(before, d')]).map Prod.fst, c ∉ bs.map Prod.fst := fun c mem later =>
    separate c mem c (List.mem_cons_of_mem _ later) rfl
  have beforeFront : before ∉ as.map Prod.fst := by
    rw [List.map_append] at nodupFront
    exact fun mem => (List.nodup_append.mp nodupFront).2.2 before mem before List.mem_cons_self rfl
  obtain ⟨cells₁, stepped, front₁, frame₁⟩ := front.setNext beforeFront next
  have back₁ : Doubly cells₁ (some a) next bs e none :=
    back.congr fun c mem => frame₁ c fun same => frontBack before inFront (same ▸ mem)
  obtain ⟨cells₂, e', behind, back₂, frame₂⟩ := back₁.setPrevOf nodupBack (some before)
  have front₂ := front₁.congr fun c mem => frame₂ c (frontBack c mem)
  have whole : Doubly cells₂ none list (as ++ [(before, d')] ++ bs) e' none :=
    Doubly.append_iff.mpr ⟨_, _, front₂, back₂⟩
  have outside : a ∉ (as ++ [(before, d')] ++ bs).map Prod.fst := by
    rw [List.map_append, List.mem_append]
    exact fun mem => mem.elim aFront aBack
  refine ⟨cells₂.free a, e', ?_, whole.free outside, fun c apart => ?_⟩
  · simp [dlListDeleteCell, cell, beforeCell, stepped, behind]
  · rw [List.map_append, List.mem_append, not_or] at apart
    obtain ⟨notFront, notBack⟩ := apart
    have other : c ≠ a := fun same => notBack (same ▸ List.mem_cons_self)
    rw [Cells.free, Function.update_of_ne other,
      frame₂ c fun mem => notBack (List.mem_cons_of_mem _ mem),
      frame₁ c fun same => notFront (same ▸ inFront)]

end

/-! ## The lists of the table -/

/-- A cell of a list with its entry, and the record that the entry is for. -/
structure Slot where
  cell : Addr
  entry : Addr
  file : FileId
  path : Path

def Slot.link (x : Slot) : Addr × Option Addr := (x.cell, some x.entry)

/-- The entry of a record in the list at `pos`. -/
structure Slot.Placed (x : Slot) (size : Nat) (files : FileId → Option MemFile) (t : HashTable)
    (pos : Nat) : Prop where
  entry : t.entries x.entry = some ⟨x.file, hashKey x.path⟩
  pos : hashKey x.path % size = pos
  short : x.path.length < 255
  path : (files x.file).map MemFile.abspath = some x.path

/-- The list at `pos` is well linked and has these records. -/
structure Bucket (size : Nat) (files : FileId → Option MemFile) (t : HashTable) (pos : Nat)
    (slots : List Slot) : Prop where
  linked : ∃ head e, t.table[pos]? = some head ∧ Doubly t.cells none head (slots.map Slot.link) e none
  placed : ∀ x ∈ slots, x.Placed size files t pos
  cells_nodup : (slots.map Slot.cell).Nodup
  entries_nodup : (slots.map Slot.entry).Nodup

section
variable {size pos pos' : Nat} {files files' : FileId → Option MemFile} {t t' : HashTable}
  {slots front back : List Slot} {x y : Slot} {path : Path} {flag : Flag}

theorem map_link (slots : List Slot) : (slots.map Slot.link).map Prod.fst = slots.map Slot.cell := by
  simp [Slot.link]

theorem Bucket.apart {slots' : List Slot} (bucket : Bucket size files t pos slots)
    (bucket' : Bucket size files t pos' slots') (other : pos ≠ pos') :
    (∀ a ∈ slots.map Slot.cell, a ∉ slots'.map Slot.cell) ∧
      ∀ a ∈ slots.map Slot.entry, a ∉ slots'.map Slot.entry := by
  have entries : ∀ x ∈ slots, ∀ y ∈ slots', x.entry ≠ y.entry := by
    intro x mem y mem' same
    have placed := bucket.placed x mem
    have placed' := bucket'.placed y mem'
    have keys := placed.entry.symm.trans ((congrArg t.entries same).trans placed'.entry)
    have key := congrArg HashEntry.key (Option.some.inj keys)
    exact other (placed.pos.symm.trans ((congrArg (· % size) key).trans placed'.pos))
  refine ⟨fun a mem mem' => ?_, fun a mem mem' => ?_⟩
  · obtain ⟨x, inside, rfl⟩ := List.mem_map.mp mem
    obtain ⟨y, inside', same⟩ := List.mem_map.mp mem'
    obtain ⟨head, e, -, linked⟩ := bucket.linked
    obtain ⟨head', e', -, linked'⟩ := bucket'.linked
    obtain ⟨p, b, cell⟩ := linked.cell (List.mem_map.mpr ⟨x, inside, rfl⟩)
    obtain ⟨p', b', cell'⟩ := linked'.cell (List.mem_map.mpr ⟨y, inside', rfl⟩)
    rw [same] at cell'
    have data := congrArg Cell.data (Option.some.inj (cell.symm.trans cell'))
    exact entries x inside y inside' (Option.some.inj data)
  · obtain ⟨x, inside, rfl⟩ := List.mem_map.mp mem
    obtain ⟨y, inside', same⟩ := List.mem_map.mp mem'
    exact entries x inside y inside' same.symm

theorem Bucket.kept (bucket : Bucket size files t pos slots) (head : t'.table[pos]? = t.table[pos]?)
    (cells : ∀ a ∈ slots.map Slot.cell, t'.cells a = t.cells a)
    (entries : ∀ a ∈ slots.map Slot.entry, t'.entries a = t.entries a) :
    Bucket size files t' pos slots := by
  obtain ⟨list, e, found, linked⟩ := bucket.linked
  refine ⟨⟨list, e, head.trans found, linked.congr ?_⟩, fun x mem => ?_, bucket.cells_nodup,
    bucket.entries_nodup⟩
  · rw [map_link]
    exact cells
  · have placed := bucket.placed x mem
    exact { placed with entry := (entries _ (List.mem_map_of_mem mem)).trans placed.entry }

/-! ## `hashTbAdd` -/

theorem Bucket.hashTbAdd (bucket : Bucket size files t (hashKey path % size) slots) {f : FileId}
    {file : MemFile} {entry cell : Addr} (short : path.length < 255) (found : files f = some file)
    (named : file.abspath = path) (freshEntry : t.entries entry = none) (freshCell : t.cells cell = none) :
    ∃ t', t.hashTbAdd size f (hashKey path) entry cell = some t' ∧
      Bucket size files t' (hashKey path % size) (⟨cell, entry, f, path⟩ :: slots) ∧
      (∀ pos ≠ hashKey path % size, t'.table[pos]? = t.table[pos]?) ∧
      (∀ a ≠ cell, a ∉ slots.map Slot.cell → t'.cells a = t.cells a) ∧
      ∀ a ≠ entry, t'.entries a = t.entries a := by
  obtain ⟨head, e, list, linked⟩ := bucket.linked
  have nodup : ((slots.map Slot.link).map Prod.fst).Nodup := by
    rw [map_link]
    exact bucket.cells_nodup
  obtain ⟨cells', e', added, linked', frame⟩ := dlListAdd_linked linked freshCell nodup
  have inside : hashKey path % size < t.table.length := (List.getElem?_eq_some_iff.mp list).1
  have others : ∀ x ∈ slots, x.entry ≠ entry := by
    intro x mem same
    cases (same ▸ (bucket.placed x mem).entry).symm.trans freshEntry
  refine ⟨⟨cells', Function.update t.entries entry (some ⟨f, hashKey path⟩),
    t.table.set (hashKey path % size) (some cell)⟩, ?_, ⟨⟨some cell, e', ?_, linked'⟩, ?_, ?_, ?_⟩, ?_, ?_, ?_⟩
  · simp [HashTable.hashTbAdd, list, added]
  · simp [inside]
  · intro x mem
    rcases List.mem_cons.mp mem with rfl | old
    · exact ⟨Function.update_self .., rfl, short, by simp [found, named]⟩
    · have placed := bucket.placed x old
      exact { placed with entry := (Function.update_of_ne (others x old) ..).trans placed.entry }
  · refine List.nodup_cons.mpr ⟨fun mem => ?_, bucket.cells_nodup⟩
    rw [← map_link] at mem
    exact linked.allocated mem freshCell
  · refine List.nodup_cons.mpr ⟨fun mem => ?_, bucket.entries_nodup⟩
    obtain ⟨x, old, same⟩ := List.mem_map.mp mem
    exact others x old same
  · exact fun pos other => List.getElem?_set_ne other.symm
  · exact fun a other outside => frame a other (by rwa [map_link])
  · exact fun a other => Function.update_of_ne other ..

/-! ## `hashTbSearch` -/

theorem Bucket.unlinked (bucket : Bucket size files t pos (front ++ x :: back)) :
    ∃ t', t.removeFound pos x.cell x.entry front.isEmpty = some t' ∧
      (∃ head e, t'.table[pos]? = some head ∧
        Doubly t'.cells none head ((front ++ back).map Slot.link) e none) ∧
      (∀ pos' ≠ pos, t'.table[pos']? = t.table[pos']?) ∧
      (∀ a ∉ (front ++ x :: back).map Slot.cell, t'.cells a = t.cells a) ∧
      t'.entries = Function.update t.entries x.entry none := by
  obtain ⟨head, e, list, linked⟩ := bucket.linked
  have nodup : (((front ++ x :: back).map Slot.link).map Prod.fst).Nodup := by
    rw [map_link]
    exact bucket.cells_nodup
  rcases List.eq_nil_or_concat front with rfl | ⟨before, y, rfl⟩
  · obtain ⟨rfl, next, cell, rest⟩ := linked
    obtain ⟨notBack, nodupBack⟩ := List.nodup_cons.mp nodup
    obtain ⟨cells', e', stepped, linked', frame⟩ := rest.setPrevOf nodupBack none
    have inside : pos < t.table.length := (List.getElem?_eq_some_iff.mp list).1
    refine ⟨⟨cells'.free x.cell, Function.update t.entries x.entry none, t.table.set pos next⟩, ?_,
      ⟨next, e', by simp [inside], linked'.free notBack⟩, fun pos' other => List.getElem?_set_ne other.symm,
      fun a outside => ?_, rfl⟩
    · simp [HashTable.removeFound, list, cell, stepped]
    · have other : a ≠ x.cell := fun same => outside (same ▸ List.mem_cons_self)
      show cells'.free x.cell a = _
      rw [Cells.free, Function.update_of_ne other, frame a]
      rw [map_link]
      exact fun mem => outside (List.mem_cons_of_mem _ mem)
  · rw [List.concat_eq_append] at linked nodup ⊢
    have shape : (before ++ [y] ++ x :: back).map Slot.link =
        before.map Slot.link ++ [y.link] ++ x.link :: back.map Slot.link := by simp
    rw [shape] at linked nodup
    obtain ⟨cells', e', deleted, linked', frame⟩ := dlListDeleteCell_linked linked nodup
    refine ⟨⟨cells', Function.update t.entries x.entry none, t.table⟩, ?_, ⟨head, e', list, ?_⟩,
      fun _ _ => rfl, fun a outside => frame a ?_, rfl⟩
    · have deletedLink : dlListDeleteCell t.cells (some x.cell) = some cells' := deleted
      simp [HashTable.removeFound, deletedLink]
    · have rest : (before ++ [y] ++ back).map Slot.link =
          before.map Slot.link ++ [y.link] ++ back.map Slot.link := by simp
      rw [rest]
      exact linked'
    · rw [← map_link, shape] at outside
      exact outside

theorem Bucket.removeFound (bucket : Bucket size files t pos (front ++ x :: back)) :
    ∃ t', t.removeFound pos x.cell x.entry front.isEmpty = some t' ∧
      Bucket size files t' pos (front ++ back) ∧
      (∀ pos' ≠ pos, t'.table[pos']? = t.table[pos']?) ∧
      (∀ a ∉ (front ++ x :: back).map Slot.cell, t'.cells a = t.cells a) ∧
      ∀ a ≠ x.entry, t'.entries a = t.entries a := by
  obtain ⟨t', removed, linked, table, cells, entries⟩ := bucket.unlinked
  have rest : (front ++ back).Sublist (front ++ x :: back) :=
    (List.Sublist.refl front).append (List.sublist_cons_self x back)
  have others : ∀ y ∈ front ++ back, y.entry ≠ x.entry := by
    have moved := bucket.entries_nodup
    rw [List.map_append, List.map_cons] at moved
    have apart := List.nodup_cons.mp (List.perm_middle.nodup_iff.mp moved)
    intro y mem same
    rw [← List.map_append] at apart
    exact apart.1 (same ▸ List.mem_map_of_mem mem)
  refine ⟨t', removed, ⟨linked, fun y mem => ?_, bucket.cells_nodup.sublist (rest.map _),
    bucket.entries_nodup.sublist (rest.map _)⟩, table, cells, fun a other => ?_⟩
  · have placed := bucket.placed y (rest.subset mem)
    refine { placed with entry := ?_ }
    rw [entries, Function.update_of_ne (others y mem)]
    exact placed.entry
  · rw [entries, Function.update_of_ne other]

theorem Slot.Placed.turn (placed : x.Placed size files t pos) (short : path.length < 255)
    {next prev : Option Addr} (cell : t.cells x.cell = some ⟨some x.entry, next, prev⟩) (p : Nat)
    (flag : Flag) (fuel : Nat) (isHead : Bool) :
    t.searchLoop files path flag (hashKey path) p (fuel + 1) (some x.cell) isHead =
      if x.path = path then
        (match flag with
          | .del => t.removeFound p x.cell x.entry isHead
          | .src => some t).map fun t => (some x.file, t)
      else t.searchLoop files path flag (hashKey path) p fuel next false := by
  obtain ⟨file, found, named⟩ : ∃ file, files x.file = some file ∧ file.abspath = x.path :=
    Option.map_eq_some_iff.mp placed.path
  have compared : strncmpEq path file.abspath = true ↔ x.path = path := by
    have less : 255 < posixPathMax := by decide
    have shortX := placed.short
    rw [strncmpEq_iff, named, List.take_of_length_le (by omega), List.take_of_length_le (by omega)]
    exact eq_comm
  simp only [HashTable.searchLoop, dlListTake, cell, placed.entry, Option.bind_eq_bind, Option.bind_some,
    Option.pure_def]
  by_cases same : x.path = path
  · rw [if_pos same]
    have equal := compared.mpr same
    simp only [HashEntry.candidate, same, found, if_true, Option.map_some, Option.bind_some,
      Option.any_some, equal]
    cases flag with
    | src => rfl
    | del => cases t.removeFound p x.cell x.entry isHead <;> rfl
  · rw [if_neg same]
    have differs : strncmpEq path file.abspath = false := by
      rw [Bool.eq_false_iff]
      exact fun equal => same (compared.mp equal)
    by_cases key : hashKey path = hashKey x.path <;>
      simp [HashEntry.candidate, key, found, differs]

theorem searchLoop_past (short : path.length < 255) {b hlist e q : Option Addr}
    (linked : Doubly t.cells b hlist (front.map Slot.link) e q)
    (placed : ∀ x ∈ front, x.Placed size files t pos) (others : ∀ x ∈ front, x.path ≠ path) (p : Nat)
    (flag : Flag) (fuel : Nat) (isHead : Bool) :
    t.searchLoop files path flag (hashKey path) p (fuel + front.length) hlist isHead =
      t.searchLoop files path flag (hashKey path) p fuel q (isHead && front.isEmpty) := by
  induction front generalizing b hlist isHead with
  | nil =>
      obtain ⟨-, rfl⟩ := linked
      simp
  | cons x front ih =>
      obtain ⟨rfl, next, cell, rest⟩ := linked
      have here := placed x List.mem_cons_self
      have walk := ih rest (fun y mem => placed y (List.mem_cons_of_mem x mem))
        (fun y mem => others y (List.mem_cons_of_mem x mem)) false
      rw [List.length_cons, ← Nat.add_assoc, here.turn short cell, if_neg (others x List.mem_cons_self),
        walk]
      simp

theorem searchLoop_succ {key p fuel : Nat} {hlist : Option Addr} {isHead : Bool}
    {result : Option FileId × HashTable}
    (ends : t.searchLoop files path flag key p fuel hlist isHead = some result) :
    t.searchLoop files path flag key p (fuel + 1) hlist isHead = some result := by
  induction fuel generalizing hlist isHead with
  | zero => cases ends
  | succ fuel ih =>
      cases hlist with
      | none => exact ends
      | some a =>
          rw [HashTable.searchLoop] at ends ⊢
          simp only [Option.bind_eq_bind, Option.bind_eq_some_iff] at ends ⊢
          obtain ⟨taken, took, ends⟩ := ends
          refine ⟨taken, took, ?_⟩
          obtain ⟨data, _, _⟩ := taken
          cases data with
          | none => exact ends
          | some found =>
              simp only [Option.bind_eq_some_iff] at ends ⊢
              obtain ⟨entry, there, file, read, ends⟩ := ends
              refine ⟨entry, there, file, read, ?_⟩
              by_cases equal : (file.any fun file => strncmpEq path file.abspath) = true
              · rw [if_pos equal] at ends ⊢
                exact ends
              · rw [if_neg equal] at ends ⊢
                obtain ⟨cell, cells, ends⟩ := Option.bind_eq_some_iff.mp ends
                exact Option.bind_eq_some_iff.mpr ⟨cell, cells, ih ends⟩

theorem hashTbSearch_le {fuel fuel' : Nat} (le : fuel ≤ fuel') {result : Option FileId × HashTable}
    (ends : t.hashTbSearch size files fuel path flag = some result) :
    t.hashTbSearch size files fuel' path flag = some result := by
  induction le with
  | refl => exact ends
  | step le ih =>
      obtain ⟨hlist, list, walk⟩ := Option.bind_eq_some_iff.mp ih
      exact Option.bind_eq_some_iff.mpr ⟨hlist, list, searchLoop_succ walk⟩

theorem Bucket.search_absent (bucket : Bucket size files t (hashKey path % size) slots)
    (flag : Flag) (short : path.length < 255) (absent : ∀ x ∈ slots, x.path ≠ path) :
    t.hashTbSearch size files (slots.length + 1) path flag = some (none, t) := by
  obtain ⟨head, e, list, linked⟩ := bucket.linked
  simp only [HashTable.hashTbSearch, list, Option.bind_eq_bind, Option.bind_some]
  rw [Nat.add_comm, searchLoop_past short linked bucket.placed absent]
  rfl

theorem Bucket.search_found (bucket : Bucket size files t (hashKey path % size) (front ++ x :: back))
    (flag : Flag) (short : path.length < 255) (others : ∀ y ∈ front, y.path ≠ path) (same : x.path = path) :
    t.hashTbSearch size files (front.length + 1) path flag =
      (match flag with
        | .del => t.removeFound (hashKey path % size) x.cell x.entry front.isEmpty
        | .src => some t).map fun t => (some x.file, t) := by
  obtain ⟨head, e, list, linked⟩ := bucket.linked
  rw [List.map_append] at linked
  obtain ⟨b, p, before, rfl, next, cell, -⟩ := Doubly.append_iff.mp linked
  have placed (y : Slot) (mem : y ∈ front) := bucket.placed y (List.mem_append_left _ mem)
  have here := bucket.placed x (List.mem_append_right _ List.mem_cons_self)
  simp only [HashTable.hashTbSearch, list, Option.bind_eq_bind, Option.bind_some]
  rw [Nat.add_comm, searchLoop_past short before placed others, here.turn short cell, if_pos same,
    Bool.true_and]

end

/-! ## The map -/

inductive HashOp where
  | add (f : FileId) (path : Path)
  | search (path : Path) (flag : Flag)

/-- A map from each path to a stack of records. -/
abbrev Stacks := Path → List FileId

def Stacks.after (records : Stacks) : HashOp → Stacks
  | .add f path => Function.update records path (f :: records path)
  | .search _ .src => records
  | .search path .del => Function.update records path (records path).tail

def stacksOf (ops : List HashOp) : Stacks := ops.foldl Stacks.after fun _ => []

/-- The tables that calls of `hashTbAdd` and `hashTbSearch` lead to, with the records as they are then:
between the calls, records that are not in the table come and go. `malloc` returns any address that is
free. -/
inductive HashRuns (size : Nat) : List HashOp → (FileId → Option MemFile) → HashTable → Prop where
  | make (files) : HashRuns size [] files (hashTbMake size)
  | between {ops files files' t} (runs : HashRuns size ops files t)
      (kept : ∀ path, ∀ f ∈ stacksOf ops path,
        (files' f).map MemFile.abspath = (files f).map MemFile.abspath) :
      HashRuns size ops files' t
  | add {ops files t f file entry cell t'} (runs : HashRuns size ops files t) (found : files f = some file)
      (short : file.abspath.length < 255) (freshEntry : t.entries entry = none)
      (freshCell : t.cells cell = none)
      (added : t.hashTbAdd size f (hashKey file.abspath) entry cell = some t') :
      HashRuns size (ops ++ [.add f file.abspath]) files t'
  | search {ops files t fuel path flag found t'} (runs : HashRuns size ops files t)
      (short : path.length < 255) (searched : t.hashTbSearch size files fuel path flag = some (found, t')) :
      HashRuns size (ops ++ [.search path flag]) files t'

/-- Each list is well linked and holds, of the paths that belong in it, the records of their stacks. -/
structure Holds (size : Nat) (files : FileId → Option MemFile) (t : HashTable) (records : Stacks) : Prop where
  length : t.table.length = size
  buckets : ∀ pos < size, ∃ slots, Bucket size files t pos slots ∧ ∀ path, hashKey path % size = pos →
    (slots.filter (·.path = path)).map Slot.file = records path

/-- The table holds the stacks; a search finds the top of a stack, and changes nothing unless its flag is
`DEL`; and nothing is accessed outside of the table. -/
structure IsMap (size : Nat) (files : FileId → Option MemFile) (t : HashTable) (records : Stacks) : Prop
    extends Holds size files t records where
  search : ∀ path flag, path.length < 255 → ∃ enough t',
    (∀ fuel ≥ enough, t.hashTbSearch size files fuel path flag = some ((records path).head?, t')) ∧
      (flag = .src → t' = t)
  add : ∀ f file entry cell, files f = some file → file.abspath.length < 255 → t.entries entry = none →
    t.cells cell = none → ∃ t', t.hashTbAdd size f (hashKey file.abspath) entry cell = some t'

section
variable {size : Nat} {files files' : FileId → Option MemFile} {t t' : HashTable} {records : Stacks}
  {path : Path} {ops : List HashOp} {flag : Flag}

theorem stacksOf_append (ops : List HashOp) (op : HashOp) :
    stacksOf (ops ++ [op]) = (stacksOf ops).after op := by
  simp [stacksOf]

theorem holds_make (size : Nat) (files : FileId → Option MemFile) :
    Holds size files (hashTbMake size) fun _ => [] where
  length := List.length_replicate
  buckets pos inside := by
    have empty : (hashTbMake size).table[pos]? = some none := by simp [hashTbMake, inside]
    exact ⟨[], ⟨⟨none, none, empty, rfl, rfl⟩, nofun, List.nodup_nil, List.nodup_nil⟩, fun _ _ => rfl⟩

theorem Holds.replace (positive : 0 < size) (holds : Holds size files t records) {slots new : List Slot}
    {stack : List FileId} (bucket : Bucket size files t (hashKey path % size) slots)
    (bucket' : Bucket size files t' (hashKey path % size) new)
    (table : ∀ pos ≠ hashKey path % size, t'.table[pos]? = t.table[pos]?)
    (cells : ∀ a, t.cells a ≠ none → a ∉ slots.map Slot.cell → t'.cells a = t.cells a)
    (entries : ∀ a, t.entries a ≠ none → a ∉ slots.map Slot.entry → t'.entries a = t.entries a)
    (here : (new.filter (·.path = path)).map Slot.file = stack)
    (others : ∀ path' ≠ path, (new.filter (·.path = path')).map Slot.file =
      (slots.filter (·.path = path')).map Slot.file)
    (agree : ∀ path', hashKey path' % size = hashKey path % size →
      (slots.filter (·.path = path')).map Slot.file = records path') :
    Holds size files t' (Function.update records path stack) where
  length := by
    have lengths (pos : Nat) : pos < t'.table.length ↔ pos < size := by
      by_cases same : pos = hashKey path % size
      · obtain ⟨head, -, list, -⟩ := bucket'.linked
        rw [same]
        exact iff_of_true (List.getElem?_eq_some_iff.mp list).1 (Nat.mod_lt _ positive)
      · have outside : t'.table[pos]? = none ↔ t.table[pos]? = none := by rw [table pos same]
        rw [List.getElem?_eq_none_iff, List.getElem?_eq_none_iff, holds.length] at outside
        omega
    have upper := (lengths t'.table.length).not.mp (Nat.lt_irrefl _)
    have lower := (lengths size).not.mpr (Nat.lt_irrefl _)
    omega
  buckets pos inside := by
    by_cases same : pos = hashKey path % size
    · subst same
      refine ⟨new, bucket', fun path' key => ?_⟩
      by_cases equal : path' = path
      · rw [equal, Function.update_self, here]
      · rw [Function.update_of_ne equal, others path' equal, agree path' key]
    · obtain ⟨kept, whole, agrees⟩ := holds.buckets pos inside
      have apart := whole.apart bucket same
      obtain ⟨head, e, -, linked⟩ := whole.linked
      refine ⟨kept, whole.kept (table pos same) (fun a mem => cells a ?_ (apart.1 a mem))
        (fun a mem => entries a ?_ (apart.2 a mem)), fun path' key => ?_⟩
      · exact linked.allocated (by rwa [map_link])
      · obtain ⟨x, inside, rfl⟩ := List.mem_map.mp mem
        simp [(whole.placed x inside).entry]
      · have equal : path' ≠ path := fun equal => same (key.symm.trans (by rw [equal]))
        rw [Function.update_of_ne equal, agrees path' key]

theorem Holds.add (positive : 0 < size) (holds : Holds size files t records) {f : FileId} {file : MemFile}
    {entry cell : Addr} (found : files f = some file) (short : file.abspath.length < 255)
    (freshEntry : t.entries entry = none) (freshCell : t.cells cell = none) :
    ∃ t', t.hashTbAdd size f (hashKey file.abspath) entry cell = some t' ∧
      Holds size files t' (records.after (.add f file.abspath)) := by
  obtain ⟨slots, bucket, agree⟩ := holds.buckets _ (Nat.mod_lt (hashKey file.abspath) positive)
  obtain ⟨t', added, bucket', table, cells, entries⟩ :=
    bucket.hashTbAdd short found rfl freshEntry freshCell
  refine ⟨t', added, holds.replace positive bucket bucket' table (fun a there outside => ?_)
    (fun a there _ => ?_) ?_ (fun path' other => ?_) agree⟩
  · exact cells a (fun same => there (same ▸ freshCell)) outside
  · exact entries a fun same => there (same ▸ freshEntry)
  · simp [agree]
  · simp [other.symm]

theorem Holds.search (positive : 0 < size) (holds : Holds size files t records)
    (short : path.length < 255) (flag : Flag) :
    ∃ enough t', t.hashTbSearch size files enough path flag = some ((records path).head?, t') ∧
      (flag = .src → t' = t) ∧ Holds size files t' (records.after (.search path flag)) := by
  obtain ⟨slots, bucket, agree⟩ := holds.buckets _ (Nat.mod_lt (hashKey path) positive)
  have stack := agree path rfl
  by_cases there : ∃ x ∈ slots, x.path = path
  · obtain ⟨y, mem, named⟩ := there
    obtain ⟨x, front, back, others, same, rfl, -⟩ :=
      List.exists_of_eraseP (p := fun z : Slot => decide (z.path = path)) mem (decide_eq_true named)
    replace same : x.path = path := of_decide_eq_true same
    replace others : ∀ y ∈ front, y.path ≠ path := fun y mem => by simpa using others y mem
    have passed : front.filter (·.path = path) = [] := List.filter_eq_nil_iff.mpr (by simpa using others)
    have rest : (front ++ x :: back).filter (·.path = path) = x :: back.filter (·.path = path) := by
      simp [passed, same]
    have top : (records path).head? = some x.file := by
      rw [← stack, rest]
      rfl
    have ended := bucket.search_found flag short others same
    rw [top]
    cases flag with
    | src => exact ⟨_, t, ended, fun _ => rfl, holds⟩
    | del =>
        obtain ⟨t', removed, bucket', table, cells, entries⟩ := bucket.removeFound
        rw [removed] at ended
        refine ⟨_, t', ended, nofun, holds.replace positive bucket bucket' table
          (fun a _ outside => cells a outside) (fun a _ outside => entries a fun equal => ?_) ?_
          (fun path' other => ?_) agree⟩
        · exact outside (by simp [equal])
        · rw [← stack, rest, List.filter_append, passed]
          rfl
        · have differs : x.path ≠ path' := fun equal => other (equal.symm.trans same)
          simp [differs]
  · have absent : ∀ x ∈ slots, x.path ≠ path := fun x mem same => there ⟨x, mem, same⟩
    have empty : records path = [] := by
      rw [← stack, List.filter_eq_nil_iff.mpr (by simpa using absent)]
      rfl
    have ended := bucket.search_absent flag short absent
    refine ⟨_, t, by rw [ended, empty]; rfl, fun _ => rfl, ?_⟩
    cases flag with
    | src => exact holds
    | del =>
        have same : records.after (.search path .del) = records := by
          show Function.update records path (records path).tail = records
          rw [empty, List.tail_nil, ← empty, Function.update_eq_self]
        rwa [same]

theorem holds_runs (positive : 0 < size) (runs : HashRuns size ops files t) :
    Holds size files t (stacksOf ops) := by
  induction runs with
  | make files => exact holds_make size files
  | @between ops files files' t runs kept ih =>
      refine ⟨ih.length, fun pos inside => ?_⟩
      obtain ⟨slots, bucket, agree⟩ := ih.buckets pos inside
      refine ⟨slots, { bucket with placed := fun x mem => ?_ }, agree⟩
      have placed := bucket.placed x mem
      have stacked : x.file ∈ stacksOf ops x.path := by
        rw [← agree x.path placed.pos]
        exact List.mem_map_of_mem (List.mem_filter.mpr ⟨mem, decide_eq_true rfl⟩)
      exact { placed with path := (kept x.path x.file stacked).trans placed.path }
  | add runs found short freshEntry freshCell added ih =>
      obtain ⟨t', ended, holds⟩ := ih.add positive found short freshEntry freshCell
      cases added.symm.trans ended
      rwa [stacksOf_append]
  | @search ops files t fuel path flag found t' runs short searched ih =>
      obtain ⟨enough, t'', ended, -, holds⟩ := ih.search positive short flag
      have first := hashTbSearch_le (Nat.le_max_left fuel enough) searched
      have second := hashTbSearch_le (Nat.le_max_right fuel enough) ended
      cases first.symm.trans second
      rwa [stacksOf_append]

/-- After any calls of `hashTbAdd` and `hashTbSearch` the table is the map that they describe. -/
theorem hashTable_isMap (positive : 0 < size) (runs : HashRuns size ops files t) :
    IsMap size files t (stacksOf ops) := by
  have holds := holds_runs positive runs
  refine { holds with search := fun path flag short => ?_, add := fun f file entry cell found short => ?_ }
  · obtain ⟨enough, t', ended, same, -⟩ := holds.search positive short flag
    exact ⟨enough, t', fun fuel le => hashTbSearch_le le ended, same⟩
  · intro freshEntry freshCell
    obtain ⟨t', added, -⟩ := holds.add positive found short freshEntry freshCell
    exact ⟨t', added⟩

end

/-- Two records of one path and one of another. -/
def threeNamed (f : FileId) : Option MemFile := some ⟨[], 0, if f = 2 then [98] else [97], 0, []⟩

/-- All three are in the only list of the table, and the later one of the first path is taken out. -/
theorem hashTable_isMap_example : ∃ t, IsMap 1 threeNamed t
    (stacksOf [.add 0 [97], .add 1 [97], .add 2 [98], .search [97] .del]) := by
  have made : HashRuns 1 [] threeNamed (hashTbMake 1) := .make _
  obtain ⟨t₁, added₁⟩ := (hashTable_isMap (by decide) made).add 0 ⟨[], 0, [97], 0, []⟩ 4 5 rfl
    (by decide) rfl rfl
  have one := made.add rfl (by decide) rfl rfl added₁
  have fresh₁ : ((hashTbMake 1).hashTbAdd 1 0 (hashKey [97]) 4 5).map (fun t => (t.entries 6, t.cells 7)) =
    some (none, none) := rfl
  rw [added₁] at fresh₁
  obtain ⟨entry₁, cell₁⟩ := Prod.mk.inj (Option.some.inj fresh₁)
  obtain ⟨t₂, added₂⟩ := (hashTable_isMap (by decide) one).add 1 ⟨[], 0, [97], 0, []⟩ 6 7 rfl
    (by decide) entry₁ cell₁
  have two := one.add rfl (by decide) entry₁ cell₁ added₂
  have fresh₂ : (((hashTbMake 1).hashTbAdd 1 0 (hashKey [97]) 4 5).bind fun t =>
    t.hashTbAdd 1 1 (hashKey [97]) 6 7).map (fun t => (t.entries 8, t.cells 9)) = some (none, none) := rfl
  rw [added₁, Option.bind_some, added₂] at fresh₂
  obtain ⟨entry₂, cell₂⟩ := Prod.mk.inj (Option.some.inj fresh₂)
  obtain ⟨t₃, added₃⟩ := (hashTable_isMap (by decide) two).add 2 ⟨[], 0, [98], 0, []⟩ 8 9 rfl
    (by decide) entry₂ cell₂
  have three := two.add rfl (by decide) entry₂ cell₂ added₃
  obtain ⟨enough, t', ended, -⟩ := (hashTable_isMap (by decide) three).search [97] .del (by decide)
  exact ⟨t', hashTable_isMap (by decide) (three.search (by decide) (ended enough (Nat.le_refl _)))⟩

end FileServer
