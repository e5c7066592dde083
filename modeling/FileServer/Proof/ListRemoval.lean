import FileServer.Model.OpenList
import FileServer.Proof.HashHeap
import FileServer.Model.WorkerFunctions

/-!
# The ways of taking a cell out of a list

The source removes a cell in four places, each with its own surgery on the links.
-/

namespace FileServer

/-- The cells `xs` form a list: the links forward and back are inverse to each other, there is nothing
before the head and no cell comes twice. -/
structure WellFormed (cells : DLCells) (head : Option Addr) (xs : List (Addr × Option Addr)) : Prop where
  linked : ∃ e, Doubly cells none head xs e none
  nodup : (xs.map Prod.fst).Nodup

/-- The result is the list `xs`, and the memory as it was but for the cell `c`. -/
def TakesOut (cells : DLCells) (xs : List (Addr × Option Addr)) (c : Addr)
    (result : Option (Option Addr × DLCells)) : Prop :=
  ∃ head' cells', result = some (head', cells') ∧ WellFormed cells' head' xs ∧
    ∀ a, cells' a = none ↔ cells a = none ∨ a = c

/-- The result is the list `xs`, and the memory as it was but for the new cell. -/
def PutsIn (cells : DLCells) (xs : List (Addr × Option Addr)) (new : Addr)
    (result : Option (Option Addr × DLCells)) : Prop :=
  ∃ head' cells', result = some (head', cells') ∧ WellFormed cells' head' xs ∧
    ∀ a, cells' a = none ↔ cells a = none ∧ a ≠ new

/-- The places: `DL_ListTake` with `DEL`, `DL_ListDeleteCell`, and the removals of the head in
`hashTbSearch` and `clientPidDelete`. -/
inductive Removal where
  | take
  | deleteCell
  | search (t : HashTable) (pos : Nat) (found : Addr)
  | clientPid (l : OpenList) (foundPid : Addr)

namespace Removal

/-- The place can be asked to remove the cell behind the cells `front`. -/
def Possible (cells : DLCells) (head : Option Addr) (front : List (Addr × Option Addr)) : Removal → Prop
  | take => True
  | deleteCell => front ≠ []
  | search t pos _ => front = [] ∧ t.cells = cells ∧ t.table[pos]? = some head
  | clientPid l _ => front = [] ∧ l.cells = cells ∧ l.clientsOpened = head

/-- The head of the list afterwards, and the cells. The pointer handed to `DL_ListTake` is that of the
list if it leads to the head. -/
def run (cells : DLCells) (head : Option Addr) (c : Addr) : Removal → Option (Option Addr × DLCells)
  | take => (dlListTake cells (some c) .del).map fun (_, list, cells) =>
      (if head = some c then list else head, cells)
  | deleteCell => (dlListDeleteCell cells (some c)).map fun cells => (head, cells)
  | search t pos found => (t.removeFound pos c found true).map fun t => (t.table.getD pos none, t.cells)
  | clientPid l foundPid => (l.removeFound c foundPid true).map fun l => (l.clientsOpened, l.cells)

/-- `DL_ListTake` sets the back link of what follows an inner cell without a look at it, and
`clientPidDelete` frees the head only if it is alone. -/
def Covered (front back : List (Addr × Option Addr)) : Removal → Prop
  | take => front = [] ∨ back ≠ []
  | clientPid _ _ => back = []
  | deleteCell | search _ _ _ => True

end Removal

section
variable {cells cells' : DLCells} {head : Option Addr} {c : Addr} {d : Option Addr}
  {front back xs : List (Addr × Option Addr)}

theorem freed_only {e e' head' : Option Addr}
    (linked : Doubly cells none head (front ++ (c, d) :: back) e none)
    (linked' : Doubly cells' none head' (front ++ back) e' none) (gone : cells' c = none)
    (frame : ∀ a, a ∉ (front ++ (c, d) :: back).map Prod.fst → cells' a = cells a) (a : Addr) :
    cells' a = none ↔ cells a = none ∨ a = c := by
  by_cases same : a = c
  · simp [same, gone]
  · by_cases inside : a ∈ (front ++ (c, d) :: back).map Prod.fst
    · have kept : a ∈ (front ++ back).map Prod.fst := by
        simp only [List.map_append, List.map_cons, List.mem_append, List.mem_cons] at inside ⊢
        tauto
      simp [same, linked.allocated inside, linked'.allocated kept]
    · simp [same, frame a inside]

theorem WellFormed.rest (list : WellFormed cells head (front ++ (c, d) :: back)) :
    ((front ++ back).map Prod.fst).Nodup := by
  have shorter : (front ++ back).Sublist (front ++ (c, d) :: back) :=
    (List.Sublist.refl front).append (List.sublist_cons_self _ back)
  exact list.nodup.sublist (shorter.map Prod.fst)

theorem TakesOut.of_linked (list : WellFormed cells head (front ++ (c, d) :: back))
    {head' e' : Option Addr} (linked' : Doubly cells' none head' (front ++ back) e' none)
    (gone : cells' c = none)
    (frame : ∀ a, a ∉ (front ++ (c, d) :: back).map Prod.fst → cells' a = cells a) :
    TakesOut cells (front ++ back) c (some (head', cells')) := by
  obtain ⟨e, linked⟩ := list.linked
  exact ⟨head', cells', rfl, ⟨⟨e', linked'⟩, list.rest⟩, freed_only linked linked' gone frame⟩

/-! ## The head -/

theorem takesOut_head (list : WellFormed cells head ((c, d) :: back)) :
    head = some c ∧ ∃ next cells', cells c = some ⟨d, next, none⟩ ∧
      cells.setPrevOf next none = some cells' ∧ cells' c = cells c ∧ (next = none ↔ back = []) ∧
      TakesOut cells back c (some (next, cells'.free c)) := by
  obtain ⟨e, first, next, cell, rest⟩ := list.linked
  obtain ⟨apart, nodup⟩ := List.nodup_cons.mp list.nodup
  obtain ⟨cells', e', stepped, linked', frame⟩ := rest.setPrevOf nodup none
  refine ⟨first, next, cells', cell, stepped, frame c apart, ?_, ?_⟩
  · cases back with
    | nil => simp [rest.2]
    | cons x back => simp [rest.1]
  · refine TakesOut.of_linked (show WellFormed cells head ([] ++ (c, d) :: back) from list)
      (linked'.free apart) (Function.update_self ..) ?_
    intro a outside
    have other : a ≠ c := fun same => outside (by simp [same])
    rw [Cells.free, Function.update_of_ne other]
    exact frame a fun mem => outside (List.mem_cons_of_mem _ mem)

theorem take_head (list : WellFormed cells head ((c, d) :: back)) :
    TakesOut cells back c (Removal.take.run cells head c) := by
  obtain ⟨rfl, next, cells', cell, stepped, -, -, takesOut⟩ := takesOut_head list
  have taken : Removal.take.run cells (some c) c = some (next, cells'.free c) := by
    simp [Removal.run, dlListTake, cell, stepped]
  rw [taken]
  exact takesOut

theorem search_head (list : WellFormed cells head ((c, d) :: back)) {t : HashTable} {pos : Nat}
    (found : Addr) (same : t.cells = cells) (here : t.table[pos]? = some head) :
    TakesOut cells back c ((Removal.search t pos found).run cells head c) := by
  obtain ⟨rfl, next, cells', cell, stepped, -, -, takesOut⟩ := takesOut_head list
  obtain ⟨inside, entry⟩ := List.getElem?_eq_some_iff.mp here
  have removed : (Removal.search t pos found).run cells (some c) c = some (next, cells'.free c) := by
    simp [Removal.run, HashTable.removeFound, inside, entry, same, cell, stepped]
  rw [removed]
  exact takesOut

theorem clientPid_head (list : WellFormed cells head ((c, d) :: back)) {l : OpenList}
    (foundPid : Addr) (same : l.cells = cells) (here : l.clientsOpened = head) :
    TakesOut cells back c ((Removal.clientPid l foundPid).run cells head c) ↔ back = [] := by
  obtain ⟨rfl, next, cells', cell, stepped, kept, ends, takesOut⟩ := takesOut_head list
  cases next with
  | none =>
      have same' : cells' = cells := (Option.some.inj stepped).symm
      have removed : (Removal.clientPid l foundPid).run cells (some c) c = some (none, cells'.free c) := by
        simp [Removal.run, OpenList.removeFound, OpenList.removeHead, here, same, cell, same']
      rw [removed]
      exact iff_of_true takesOut (ends.mp rfl)
  | some next =>
      have removed : (Removal.clientPid l foundPid).run cells (some c) c = some (some next, cells') := by
        have linked : cells.setPrev next none = some cells' := stepped
        simp [Removal.run, OpenList.removeFound, OpenList.removeHead, here, same, cell, linked]
      have more : back ≠ [] := by simpa using ends
      -- The head is still allocated.
      refine iff_of_false (fun ⟨head', cells₁, result, _, freed⟩ => ?_) more
      have leaked : cells₁ c = some ⟨d, some next, none⟩ := by
        rw [removed] at result
        cases result
        rw [kept, cell]
      have gone := (freed c).mpr (.inr rfl)
      rw [leaked] at gone
      cases gone

/-! ## A cell behind another one -/

theorem dlListDeleteCell_gone (deleted : dlListDeleteCell cells (some c) = some cells') :
    cells' c = none := by
  simp only [dlListDeleteCell, Option.bind_eq_bind, Option.bind_eq_some_iff, Option.pure_def,
    Option.some.injEq] at deleted
  obtain ⟨-, -, -, -, -, -, -, -, -, -, -, -, cells₂, -, rfl⟩ := deleted
  exact Function.update_self ..

theorem deleteCell_inner {before : Addr} {d' : Option Addr} {front : List (Addr × Option Addr)}
    (list : WellFormed cells head (front ++ [(before, d')] ++ (c, d) :: back)) :
    TakesOut cells (front ++ [(before, d')] ++ back) c (Removal.deleteCell.run cells head c) := by
  obtain ⟨e, linked⟩ := list.linked
  obtain ⟨cells', e', deleted, linked', frame⟩ := dlListDeleteCell_linked linked list.nodup
  have result : Removal.deleteCell.run cells head c = some (head, cells') := by
    simp [Removal.run, deleted]
  rw [result]
  exact TakesOut.of_linked list linked' (dlListDeleteCell_gone deleted) frame

/-- In the middle of a list `DL_ListTake` does what `DL_ListDeleteCell` does; at its end it writes
through `NULL`. -/
theorem take_inner {before : Addr} {d' : Option Addr} {front : List (Addr × Option Addr)}
    (list : WellFormed cells head (front ++ [(before, d')] ++ (c, d) :: back)) :
    Removal.take.run cells head c =
      if back = [] then none else Removal.deleteCell.run cells head c := by
  obtain ⟨e, linked⟩ := list.linked
  obtain ⟨b, p, frontLinked, rfl, next, cell, backLinked⟩ := Doubly.append_iff.mp linked
  obtain ⟨rfl, b', beforeCell⟩ := frontLinked.last
  have notHead : head ≠ some c := by
    have apart := (List.nodup_append.mp (List.map_append ▸ list.nodup)).2.2
    cases front with
    | nil =>
        intro same
        have first := linked.1.symm.trans same
        exact apart before (by simp) c (by simp) (Option.some.inj first)
    | cons x front =>
        intro same
        have first := linked.1.symm.trans same
        exact apart x.1 (by simp) c (by simp) (Option.some.inj first)
  cases back with
  | nil =>
      obtain ⟨-, rfl⟩ := backLinked
      simp [Removal.run, dlListTake, cell, beforeCell]
  | cons x back =>
      obtain ⟨rfl, -⟩ := backLinked
      rw [if_neg (List.cons_ne_nil x back)]
      simp only [Removal.run, dlListTake, dlListDeleteCell, cell, beforeCell, Option.bind_eq_bind,
        Option.bind_some, Option.pure_def, Cells.setPrevOf, if_neg notHead]
      cases Cells.setNext cells before (some x.1) with
      | none => rfl
      | some cells₁ =>
          simp only [Option.bind_some]
          cases Cells.setPrev cells₁ x.1 (some before) <;> rfl

/-! ## All of them -/

theorem Removal.correct_iff (list : WellFormed cells head (front ++ (c, d) :: back)) (r : Removal)
    (possible : r.Possible cells head front) :
    TakesOut cells (front ++ back) c (r.run cells head c) ↔ r.Covered front back := by
  rcases List.eq_nil_or_concat front with rfl | ⟨front, x, rfl⟩
  · cases r with
    | take => exact iff_of_true (take_head list) (.inl rfl)
    | deleteCell => exact absurd rfl possible
    | search t pos found => exact iff_of_true (search_head list found possible.2.1 possible.2.2) trivial
    | clientPid l foundPid => exact clientPid_head list foundPid possible.2.1 possible.2.2
  · rw [List.concat_eq_append] at list possible ⊢
    have inner : front ++ [x] ≠ [] := by simp
    cases r with
    | take =>
        rw [take_inner list]
        by_cases last : back = []
        · simp [last, TakesOut, Removal.Covered]
        · rw [if_neg last]
          exact iff_of_true (deleteCell_inner list) (.inr last)
    | deleteCell => exact iff_of_true (deleteCell_inner list) trivial
    | search t pos found => exact absurd possible.1 inner
    | clientPid l foundPid => exact absurd possible.1 inner

theorem putsIn_head (list : WellFormed cells head xs) (data : Option Addr) {new : Addr}
    (fresh : cells new = none) :
    PutsIn cells ((new, data) :: xs) new (dlListAdd cells head data new) := by
  obtain ⟨e, linked⟩ := list.linked
  obtain ⟨cells', e', added, linked', frame⟩ := dlListAdd_linked linked fresh list.nodup
  have apart : new ∉ xs.map Prod.fst := fun mem => linked.allocated mem fresh
  refine ⟨some new, cells', added, ⟨⟨e', linked'⟩, List.nodup_cons.mpr ⟨apart, list.nodup⟩⟩, fun a => ?_⟩
  by_cases inside : a ∈ ((new, data) :: xs).map Prod.fst
  · have kept := linked'.allocated inside
    rcases List.mem_cons.mp inside with rfl | old
    · simp [kept]
    · simp [kept, linked.allocated old]
  · have other : a ≠ new := fun same => inside (by simp [same])
    rw [frame a other fun mem => inside (List.mem_cons_of_mem _ mem)]
    simp [other]

end

/-- Every removal that can be asked for is right exactly where it is covered, and adding always is. -/
theorem dlList_operations {cells : DLCells} {head : Option Addr} {xs : List (Addr × Option Addr)}
    (list : WellFormed cells head xs) :
    (∀ front c d back (r : Removal), xs = front ++ (c, d) :: back → r.Possible cells head front →
      (TakesOut cells (front ++ back) c (r.run cells head c) ↔ r.Covered front back)) ∧
    ∀ data new, cells new = none → PutsIn cells ((new, data) :: xs) new (dlListAdd cells head data new) := by
  refine ⟨?_, fun data new fresh => putsIn_head list data fresh⟩
  rintro front c d back r rfl possible
  exact Removal.correct_iff list r possible

def twoCells : DLCells :=
  (Cells.put (fun _ => none) 0 ⟨some 10, some 1, none⟩).put 1 ⟨some 11, none, some 0⟩

theorem twoCells_wellFormed : WellFormed twoCells (some 0) [(0, some 10), (1, some 11)] :=
  ⟨⟨some 1, rfl, some 1, rfl, rfl, none, rfl, rfl, rfl⟩, by decide⟩

/-- Taking the last cell by `DL_ListTake` fails, and `clientPidDelete` leaks the first. -/
theorem twoCells_removals :
    ¬TakesOut twoCells [(0, some 10)] 1 (Removal.take.run twoCells (some 0) 1) ∧
      ¬TakesOut twoCells [(1, some 11)] 0
        ((Removal.clientPid ⟨twoCells, fun _ => some 7, some 0⟩ 10).run twoCells (some 0) 0) := by
  constructor
  · rw [@take_inner _ _ _ _ [] _ _ [] twoCells_wellFormed]
    simp [TakesOut]
  · rw [clientPid_head twoCells_wellFormed 10 rfl rfl]
    simp

theorem dlList_operations_example :
    TakesOut twoCells [(1, some 11)] 0 (Removal.take.run twoCells (some 0) 0) :=
  ((dlList_operations twoCells_wellFormed).1 [] 0 _ _ .take rfl trivial).mpr (.inl rfl)

/-! ## `clientPidDelete` -/

structure ClientCell where
  cell : Addr
  object : Addr
  pid : Pid

def ClientCell.link (x : ClientCell) : Addr × Option Addr := (x.cell, some x.object)

structure ClientList (l : OpenList) (xs : List ClientCell) : Prop where
  list : WellFormed l.cells l.clientsOpened (xs.map ClientCell.link)
  pids : ∀ x ∈ xs, l.pids x.object = some x.pid
  objects : (xs.map ClientCell.object).Nodup

section
variable {l l' : OpenList} {front back xs : List ClientCell} {x : ClientCell} {clientPid : Pid}

theorem deleteLoop_past {b p e q : Option Addr} (linked : Doubly l.cells b p (front.map ClientCell.link) e q)
    (pids : ∀ x ∈ front, l.pids x.object = some x.pid) (others : ∀ x ∈ front, clientPid ≠ x.pid)
    (fuel : Nat) (isHead : Bool) :
    l.deleteLoop clientPid (front.length + fuel) p isHead =
      l.deleteLoop clientPid fuel q (isHead && front.isEmpty) := by
  induction front generalizing b p isHead with
  | nil =>
      rw [linked.2]
      simp
  | cons x front ih =>
      obtain ⟨rfl, next, cell, rest⟩ := linked
      have later := ih rest (fun y mem => pids y (List.mem_cons_of_mem x mem))
        (fun y mem => others y (List.mem_cons_of_mem x mem)) false
      rw [List.length_cons, Nat.add_right_comm]
      simp [OpenList.deleteLoop, dlListTake, cell, pids x List.mem_cons_self,
        others x List.mem_cons_self, later]

/-- The list is right even where the cell stays allocated. -/
theorem removeHead_list {c : Addr} {d : Option Addr} {rest : List (Addr × Option Addr)}
    (list : WellFormed l.cells l.clientsOpened ((c, d) :: rest)) :
    ∃ l', l.removeHead = some l' ∧ l'.pids = l.pids ∧ WellFormed l'.cells l'.clientsOpened rest := by
  obtain ⟨first, next, cells', cell, stepped, -, -, takesOut⟩ := takesOut_head list
  obtain ⟨head', freed, same, unlinked, -⟩ := takesOut
  cases same
  cases next with
  | none =>
      cases stepped
      exact ⟨{ l with cells := l.cells.free c, clientsOpened := none },
        by simp [OpenList.removeHead, first, cell], rfl, unlinked⟩
  | some next =>
      have linkedNext : l.cells.setPrev next none = some cells' := stepped
      refine ⟨{ l with cells := cells', clientsOpened := some next },
        by simp [OpenList.removeHead, first, cell, linkedNext], rfl, ?_, unlinked.nodup⟩
      obtain ⟨e, linked⟩ := unlinked.linked
      have apart := (List.nodup_cons.mp list.nodup).1
      exact ⟨e, linked.congr fun a mem => (Function.update_of_ne (ne_of_mem_of_not_mem mem apart) ..).symm⟩

theorem removeFound_list {c object : Addr} {d : Option Addr} {ahead rest : List (Addr × Option Addr)}
    (list : WellFormed l.cells l.clientsOpened (ahead ++ (c, d) :: rest)) :
    ∃ l', l.removeFound c object ahead.isEmpty = some l' ∧
      l'.pids = Function.update l.pids object none ∧
      WellFormed l'.cells l'.clientsOpened (ahead ++ rest) := by
  rcases List.eq_nil_or_concat ahead with rfl | ⟨ahead, x, rfl⟩
  · obtain ⟨l', removed, pids, unlinked⟩ := removeHead_list list
    refine ⟨{ l' with pids := Function.update l.pids object none }, ?_, rfl, unlinked⟩
    simp [OpenList.removeFound, removed, pids]
  · rw [List.concat_eq_append] at list ⊢
    obtain ⟨head', cells', result, unlinked, -⟩ := deleteCell_inner list
    obtain ⟨cells₁, deleted, same⟩ := Option.map_eq_some_iff.mp result
    cases same
    refine ⟨{ l with cells := cells', pids := Function.update l.pids object none }, ?_, rfl, unlinked⟩
    simp [OpenList.removeFound, deleted]

theorem ClientList.removeFound (opened : ClientList l (front ++ x :: back)) :
    ∃ l', l.removeFound x.cell x.object front.isEmpty = some l' ∧ ClientList l' (front ++ back) := by
  have list := opened.list
  rw [List.map_append, List.map_cons] at list
  obtain ⟨l', removed, pids, unlinked⟩ := removeFound_list list
  have objects := opened.objects
  rw [List.map_append, List.map_cons, List.perm_middle.nodup_iff, ← List.map_append] at objects
  obtain ⟨apart, rest⟩ := List.nodup_cons.mp objects
  refine ⟨l', by simpa using removed, by rwa [List.map_append], fun y mem => ?_, rest⟩
  have other : y.object ≠ x.object := fun same => apart (same ▸ List.mem_map_of_mem mem)
  rw [pids, Function.update_of_ne other]
  apply opened.pids
  simp only [List.mem_append, List.mem_cons] at mem ⊢
  tauto

/-- `clientPidDelete` takes out the first cell of the client, as the list of the record's clients
does. -/
theorem ClientList.clientPidDelete (opened : ClientList l xs) (clientPid : Pid) :
    ∃ l' ys, l.clientPidDelete (xs.length + 1) clientPid =
        some (if clientPid ∈ xs.map ClientCell.pid then 1 else 0, l') ∧
      ClientList l' ys ∧ ys.map ClientCell.pid = FileServer.clientPidDelete (xs.map ClientCell.pid) clientPid := by
  obtain ⟨e, linked⟩ := opened.list.linked
  have searched : l.clientPidDelete (xs.length + 1) clientPid =
      l.deleteLoop clientPid (xs.length + 1) l.clientsOpened true := by
    unfold OpenList.clientPidDelete
    by_cases empty : l.clientsOpened = none
    · rw [if_pos empty, empty]
      rfl
    · rw [if_neg empty]
  rw [searched]
  by_cases inside : clientPid ∈ xs.map ClientCell.pid
  · obtain ⟨pids, pids', before, split, erased⟩ := List.exists_erase_eq inside
    obtain ⟨front, rest, rfl, rfl, tail⟩ := List.map_eq_append_iff.mp split
    obtain ⟨x, back, rfl, rfl, rfl⟩ := List.map_eq_cons_iff.mp tail
    obtain ⟨l', removed, left⟩ := opened.removeFound
    refine ⟨l', front ++ back, ?_, left, ?_⟩
    · rw [List.map_append] at linked
      obtain ⟨b, p, ahead, rfl, next, cell, -⟩ := Doubly.append_iff.mp linked
      have others : ∀ y ∈ front, x.pid ≠ y.pid := fun y mem same =>
        before (same ▸ List.mem_map_of_mem mem)
      have past := deleteLoop_past ahead (fun y mem => opened.pids y (by simp [mem])) others
        (back.length + 2) true
      have length : (front ++ x :: back).length + 1 = front.length + (back.length + 2) := by
        simp
        omega
      rw [if_pos inside, length, past, Bool.true_and]
      simp [OpenList.deleteLoop, dlListTake, cell, opened.pids x (by simp), removed]
    · rw [FileServer.clientPidDelete, erased, List.map_append]
  · have others : ∀ y ∈ xs, clientPid ≠ y.pid := fun y mem same =>
      inside (same ▸ List.mem_map_of_mem mem)
    refine ⟨l, xs, ?_, opened, (List.erase_of_not_mem inside).symm⟩
    rw [if_neg inside, deleteLoop_past linked opened.pids others 1 true]
    rfl

end

end FileServer
