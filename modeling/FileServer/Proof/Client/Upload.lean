import FileServer.Model.Upload
import Mathlib.Data.List.Perm.Subperm
import Mathlib.Algebra.Order.Ring.Int
import Mathlib.Data.List.Nodup

/-!
# The limit of an upload

Which directory trees `sendFilesDirectory` uploads as its limit says.
-/

namespace FileServer

namespace Entries

def names : Entries → List Path
  | .done => []
  | .file name rest | .other name rest | .directory name _ _ rest => name :: rest.names

/-- The names in a directory differ from one another and have no slash. -/
def WellNamed : Entries → Prop
  | .done => True
  | .file name rest | .other name rest => (slash ∉ name ∧ name ∉ rest.names) ∧ rest.WellNamed
  | .directory name _ entries rest =>
      (slash ∉ name ∧ name ∉ rest.names) ∧ entries.WellNamed ∧ rest.WellNamed

/-- The regular files that are reached without entering a directory that is hidden or does not
open. -/
def files (dirName : Path) : Entries → List Path
  | .done => []
  | .file name rest => fileName dirName name :: rest.files dirName
  | .other _ rest => rest.files dirName
  | .directory name opens entries rest =>
      (if undotted name ∧ opens then entries.files (fileName dirName name) else []) ++ rest.files dirName

def regular : Entries → Nat
  | .done => 0
  | .file _ rest => rest.regular + 1
  | .other _ rest => rest.regular
  | .directory name opens entries rest =>
      (if undotted name ∧ opens then entries.regular else 0) + rest.regular

/-- Until the limit `n` is reached every visible directory opens, and no directory that has files among
the first `n` has a regular file after them. -/
def EndsCleanly (n : Int) : Entries → Int → Prop
  | .done, _ => True
  | .file _ rest, sent => if sent < n then rest.EndsCleanly n (sent + 1) else sent = 0
  | .other _ rest, sent => rest.EndsCleanly n sent
  | .directory name opens entries rest, sent =>
      if undotted name then
        opens ∧ entries.EndsCleanly (n - sent) 0 ∧
          rest.EndsCleanly n (sent + min (n - sent) entries.regular)
      else rest.EndsCleanly n sent

/-- The files of limited directories, less the visible directories that do not open. -/
def balance (n : Int) : Entries → Int → Int
  | .done, sent => sent
  | .file _ rest, sent => rest.balance n (if n ≠ -1 then sent + 1 else sent)
  | .other _ rest, sent => rest.balance n sent
  | .directory name opens entries rest, sent =>
      if undotted name then
        rest.balance n (sent + if opens then entries.balance (n - sent) 0 else -1)
      else rest.balance n sent

/-- At no file of a directory with a limit does the balance exceed the limit. -/
def WithinLimits (n : Int) : Entries → Int → Prop
  | .done, _ => True
  | .file _ rest, sent =>
      (n ≠ -1 → sent < n) ∧ rest.WithinLimits n (if n ≠ -1 then sent + 1 else sent)
  | .other _ rest, sent => rest.WithinLimits n sent
  | .directory name opens entries rest, sent =>
      if undotted name then
        (opens → entries.WithinLimits (n - sent) 0) ∧
          rest.WithinLimits n (sent + if opens then entries.balance (n - sent) 0 else -1)
      else rest.WithinLimits n sent

end Entries

/-- The regular files of the tree that can be reached. -/
def reachable (dirName : Path) (opens : Bool) (entries : Entries) : List Path :=
  if opens then entries.files dirName else []

/-- A limited upload takes as many files as the limit allows and returns their number; an unlimited one
takes them all. -/
def RespectsLimit (dirName : Path) (n : Int) (opens : Bool) (entries : Entries) : Prop :=
  let (issued, ret) := sendFilesDirectory dirName n opens entries
  let there := reachable dirName opens entries
  issued.Nodup ∧
    if n = -1 then ∀ path, path ∈ issued ↔ path ∈ there
    else (∀ path ∈ issued, path ∈ there) ∧ (issued.length : Int) = min n there.length ∧
      ret = min n there.length

/-! ## The reachable files -/

theorem Entries.length_files (dirName : Path) (entries : Entries) :
    (entries.files dirName).length = entries.regular := by
  induction entries generalizing dirName with
  | done => rfl
  | file name rest ih => simp [files, regular, ih]
  | other name rest ih => simp [files, regular, ih]
  | directory name opens entries rest inner ih =>
      simp only [files, regular, List.length_append, ih]
      split <;> simp [inner]

def component (dirName path : Path) : Path := (path.drop (dirName.length + 1)).takeWhile (· ≠ slash)

theorem component_entry {name : Path} (plain : slash ∉ name) (dirName : Path) {tail : Path}
    (ends : tail.takeWhile (· ≠ slash) = []) :
    component dirName (fileName dirName (name ++ tail)) = name := by
  have apart : ∀ c ∈ name, decide (c ≠ slash) = true := by
    intro c member
    rw [decide_eq_true_eq]
    rintro rfl
    exact plain member
  simp only [component, fileName, List.drop_length_add_append, List.drop_succ_cons, List.drop_zero]
  rw [List.takeWhile_append_of_pos apart, ends, List.append_nil]

theorem component_fileName {name : Path} (plain : slash ∉ name) (dirName : Path) :
    component dirName (fileName dirName name) = name := by
  have whole := component_entry plain dirName (show ([] : Path).takeWhile (· ≠ slash) = [] from rfl)
  rwa [List.append_nil] at whole

theorem component_below {name : Path} (plain : slash ∉ name) (dirName rest : Path) :
    component dirName (fileName (fileName dirName name) rest) = name := by
  have joined : fileName (fileName dirName name) rest = fileName dirName (name ++ slash :: rest) := by
    simp [fileName]
  rw [joined]
  exact component_entry plain dirName (by simp)

theorem Entries.below_files {entries : Entries} {dirName path : Path}
    (member : path ∈ entries.files dirName) : ∃ tail, path = fileName dirName tail := by
  induction entries generalizing dirName with
  | done => cases member
  | file name rest ih =>
      rcases List.mem_cons.mp member with rfl | later
      · exact ⟨name, rfl⟩
      · exact ih later
  | other name rest ih => exact ih member
  | directory name opens entries rest inner ih =>
      rcases List.mem_append.mp member with below | later
      · split at below
        · obtain ⟨tail, rfl⟩ := inner below
          exact ⟨name ++ slash :: tail, by simp [fileName]⟩
        · cases below
      · exact ih later

theorem Entries.component_files {entries : Entries} (named : entries.WellNamed) {dirName path : Path}
    (member : path ∈ entries.files dirName) : component dirName path ∈ entries.names := by
  induction entries generalizing dirName with
  | done => cases member
  | file name rest ih =>
      rcases List.mem_cons.mp member with rfl | later
      · exact List.mem_cons.mpr (.inl (component_fileName named.1.1 dirName))
      · exact List.mem_cons_of_mem _ (ih named.2 later)
  | other name rest ih => exact List.mem_cons_of_mem _ (ih named.2 member)
  | directory name opens entries rest inner ih =>
      rcases List.mem_append.mp member with below | later
      · split at below
        · obtain ⟨tail, rfl⟩ : ∃ tail, path = fileName (fileName dirName name) tail :=
            below_files below
          exact List.mem_cons.mpr (.inl (component_below named.1.1 dirName tail))
        · cases below
      · exact List.mem_cons_of_mem _ (ih named.2.2 later)

theorem Entries.nodup_files {entries : Entries} (named : entries.WellNamed) (dirName : Path) :
    (entries.files dirName).Nodup := by
  induction entries generalizing dirName with
  | done => exact List.nodup_nil
  | file name rest ih =>
      refine List.nodup_cons.mpr ⟨fun again => named.1.2 ?_, ih named.2 dirName⟩
      have through := component_files named.2 again
      rwa [component_fileName named.1.1] at through
  | other name rest ih => exact ih named.2 dirName
  | directory name opens entries rest inner ih =>
      rw [files]
      split
      · refine List.nodup_append'.mpr ⟨inner named.2.1 _, ih named.2.2 dirName, fun path below later => ?_⟩
        obtain ⟨tail, rfl⟩ := below_files below
        have through := component_files named.2.2 later
        rw [component_below named.1.1] at through
        exact named.1.2 through
      · exact ih named.2.2 dirName

/-! ## One entry of a directory -/

section
variable {n sent : Int}

theorem sendLoop_stopped (dirName name : Path) (rest : Entries) (finite : n ≠ -1) (full : n ≤ sent) :
    sendLoop dirName n (.file name rest) sent = ([], 0) := by
  have hit : n < sent + 1 := by omega
  simp [sendLoop, finite, hit]

theorem sendLoop_file (dirName name : Path) (rest : Entries) (room : n ≠ -1 → sent < n) :
    sendLoop dirName n (.file name rest) sent =
      (fileName dirName name :: (sendLoop dirName n rest (if n ≠ -1 then sent + 1 else sent)).1,
        (sendLoop dirName n rest (if n ≠ -1 then sent + 1 else sent)).2) := by
  by_cases finite : n ≠ -1
  · have room' : ¬n < sent + 1 := not_lt.mpr (room finite)
    simp [sendLoop, finite, room']
  · simp [sendLoop, finite]

theorem sendLoop_counts (dirName name : Path) (rest : Entries) (finite : n ≠ -1) (room : sent < n) :
    sendLoop dirName n (.file name rest) sent =
      (fileName dirName name :: (sendLoop dirName n rest (sent + 1)).1,
        (sendLoop dirName n rest (sent + 1)).2) := by
  rw [sendLoop_file dirName name rest fun _ => room, if_pos finite]

theorem sendLoop_entered {name : Path} (seen : undotted name) (dirName : Path) (entries rest : Entries) :
    sendLoop dirName n (.directory name true entries rest) sent =
      ((sendLoop (fileName dirName name) (n - sent) entries 0).1 ++
        (sendLoop dirName n rest (sent + (sendLoop (fileName dirName name) (n - sent) entries 0).2)).1,
        (sendLoop dirName n rest (sent + (sendLoop (fileName dirName name) (n - sent) entries 0).2)).2) := by
  simp [sendLoop, seen]

theorem sendLoop_closed {name : Path} (seen : undotted name) (dirName : Path) (entries rest : Entries) :
    sendLoop dirName n (.directory name false entries rest) sent =
      sendLoop dirName n rest (sent + -1) := by
  simp [sendLoop, seen]

theorem sendLoop_skipped {name : Path} (hidden : ¬undotted name) (dirName : Path) (opens : Bool)
    (entries rest : Entries) :
    sendLoop dirName n (.directory name opens entries rest) sent = sendLoop dirName n rest sent := by
  simp [sendLoop, hidden]

end

/-! ## What every walk does -/

theorem sendLoop_sublist (dirName : Path) (n : Int) (entries : Entries) (sent : Int) :
    (sendLoop dirName n entries sent).1.Sublist (entries.files dirName) := by
  induction entries generalizing dirName n sent with
  | done => exact List.Sublist.refl _
  | file name rest ih =>
      by_cases room : n ≠ -1 → sent < n
      · rw [sendLoop_file dirName name rest room]
        exact (ih _ _ _).cons_cons _
      · have full : n ≠ -1 ∧ n ≤ sent := by simpa using room
        rw [sendLoop_stopped dirName name rest full.1 full.2]
        exact List.nil_sublist _
  | other name rest ih => exact ih _ _ _
  | directory name opens entries rest inner ih =>
      by_cases seen : undotted name
      · cases opens with
        | true =>
            rw [sendLoop_entered seen]
            simpa [Entries.files, seen] using (inner _ _ _).append (ih _ _ _)
        | false =>
            rw [sendLoop_closed seen]
            simpa [Entries.files, seen] using ih _ _ _
      · rw [sendLoop_skipped seen]
        simpa [Entries.files, seen] using ih _ _ _

theorem sendLoop_counted (dirName : Path) {n sent : Int} (limited : 0 ≤ n) (below : sent ≤ n)
    (entries : Entries) :
    (sendLoop dirName n entries sent).2 ≤ n ∧
      (sendLoop dirName n entries sent).2 ≤ sent + (sendLoop dirName n entries sent).1.length := by
  induction entries generalizing dirName n sent with
  | done => simp [sendLoop, below]
  | file name rest ih =>
      have finite : n ≠ -1 := by omega
      by_cases room : sent < n
      · have later := ih dirName limited (by omega : sent + 1 ≤ n)
        rw [sendLoop_counts dirName name rest finite room, List.length_cons]
        omega
      · rw [sendLoop_stopped dirName name rest finite (by omega), List.length_nil]
        omega
  | other name rest ih => exact ih dirName limited below
  | directory name opens entries rest inner ih =>
      by_cases seen : undotted name
      · cases opens with
        | true =>
            have budget : 0 ≤ n - sent := by omega
            have first := inner (fileName dirName name) budget budget
            have later := ih dirName limited (by omega :
              sent + (sendLoop (fileName dirName name) (n - sent) entries 0).2 ≤ n)
            rw [sendLoop_entered seen, List.length_append]
            omega
        | false =>
            have later := ih dirName limited (by omega : sent + -1 ≤ n)
            rw [sendLoop_closed seen]
            omega
      · rw [sendLoop_skipped seen]
        exact ih dirName limited below

/-! ## A limited upload -/

theorem sendLoop_clean (dirName : Path) {n sent : Int} (counted : 0 ≤ sent) (below : sent ≤ n)
    {entries : Entries} (clean : entries.EndsCleanly n sent) :
    ((sendLoop dirName n entries sent).1.length : Int) = min (n - sent) entries.regular ∧
      (sendLoop dirName n entries sent).2 = sent + min (n - sent) entries.regular := by
  induction entries generalizing dirName n sent with
  | done =>
      simp only [sendLoop, Entries.regular, List.length_nil]
      omega
  | file name rest ih =>
      have finite : n ≠ -1 := by omega
      simp only [Entries.EndsCleanly] at clean
      by_cases room : sent < n
      · rw [if_pos room] at clean
        have later := ih dirName (by omega : 0 ≤ sent + 1) (by omega) clean
        rw [sendLoop_counts dirName name rest finite room, List.length_cons, Entries.regular]
        omega
      · rw [if_neg room] at clean
        rw [sendLoop_stopped dirName name rest finite (by omega), List.length_nil]
        omega
  | other name rest ih => exact ih dirName counted below clean
  | directory name opens entries rest inner ih =>
      simp only [Entries.EndsCleanly] at clean
      by_cases seen : undotted name
      · rw [if_pos seen] at clean
        obtain ⟨rfl, cleanBelow, cleanLater⟩ := clean
        have first := inner (fileName dirName name) (by omega : (0 : Int) ≤ 0) (by omega : 0 ≤ n - sent)
          cleanBelow
        have resumed : sent + (sendLoop (fileName dirName name) (n - sent) entries 0).2 =
          sent + min (n - sent) entries.regular := by omega
        have later := ih dirName (by omega) (by omega) cleanLater
        rw [sendLoop_entered seen, resumed, List.length_append]
        simp only [Entries.regular, seen, and_self, if_true]
        omega
      · rw [if_neg seen] at clean
        rw [sendLoop_skipped seen]
        simpa [Entries.regular, seen] using ih dirName counted below clean

/-- Once a directory with counted files meets its limit, or a directory does not open, the count falls
behind what was issued. -/
theorem sendLoop_unclean (dirName : Path) {n sent : Int} (counted : 0 ≤ sent) (below : sent ≤ n)
    {entries : Entries} (unclean : ¬entries.EndsCleanly n sent) :
    (sendLoop dirName n entries sent).2 < sent + (sendLoop dirName n entries sent).1.length := by
  induction entries generalizing dirName n sent with
  | done => exact absurd trivial unclean
  | file name rest ih =>
      have finite : n ≠ -1 := by omega
      simp only [Entries.EndsCleanly] at unclean
      by_cases room : sent < n
      · rw [if_pos room] at unclean
        have later := ih dirName (by omega : 0 ≤ sent + 1) (by omega) unclean
        rw [sendLoop_counts dirName name rest finite room, List.length_cons]
        omega
      · rw [if_neg room] at unclean
        rw [sendLoop_stopped dirName name rest finite (by omega), List.length_nil]
        omega
  | other name rest ih => exact ih dirName counted below unclean
  | directory name opens entries rest inner ih =>
      have limited : 0 ≤ n := by omega
      simp only [Entries.EndsCleanly] at unclean
      by_cases seen : undotted name
      · rw [if_pos seen] at unclean
        cases opens with
        | false =>
            have later := sendLoop_counted dirName limited (by omega : sent + -1 ≤ n) rest
            rw [sendLoop_closed seen]
            omega
        | true =>
            have budget : 0 ≤ n - sent := by omega
            have first := sendLoop_counted (fileName dirName name) budget budget entries
            have later := sendLoop_counted dirName limited (by omega :
              sent + (sendLoop (fileName dirName name) (n - sent) entries 0).2 ≤ n) rest
            rw [sendLoop_entered seen, List.length_append]
            by_cases cleanBelow : entries.EndsCleanly (n - sent) 0
            · have all := sendLoop_clean (fileName dirName name) (by omega : (0 : Int) ≤ 0) budget cleanBelow
              have resumed : sent + (sendLoop (fileName dirName name) (n - sent) entries 0).2 =
                sent + min (n - sent) entries.regular := by omega
              have uncleanLater : ¬rest.EndsCleanly n (sent + min (n - sent) entries.regular) :=
                fun clean => unclean ⟨rfl, cleanBelow, clean⟩
              have lost := ih dirName (by omega) (by omega) uncleanLater
              rw [← resumed] at lost
              omega
            · have lost := inner (fileName dirName name) (by omega : (0 : Int) ≤ 0) budget cleanBelow
              omega
      · rw [if_neg seen] at unclean
        rw [sendLoop_skipped seen]
        exact ih dirName counted below unclean

/-! ## An unlimited upload -/

theorem sendLoop_within (dirName : Path) {n sent : Int} {entries : Entries}
    (within : entries.WithinLimits n sent) :
    sendLoop dirName n entries sent = (entries.files dirName, entries.balance n sent) := by
  induction entries generalizing dirName n sent with
  | done => rfl
  | file name rest ih =>
      rw [sendLoop_file dirName name rest within.1, ih dirName within.2]
      rfl
  | other name rest ih => exact ih dirName within
  | directory name opens entries rest inner ih =>
      simp only [Entries.WithinLimits] at within
      by_cases seen : undotted name
      · rw [if_pos seen] at within
        cases opens with
        | true =>
            have later := ih dirName within.2
            rw [if_pos rfl] at later
            rw [sendLoop_entered seen, inner (fileName dirName name) (within.1 rfl), later]
            simp [Entries.files, Entries.balance, seen]
        | false =>
            have later := ih dirName within.2
            rw [if_neg Bool.false_ne_true] at later
            rw [sendLoop_closed seen, later]
            simp [Entries.files, Entries.balance, seen]
      · rw [if_neg seen] at within
        rw [sendLoop_skipped seen, ih dirName within]
        simp [Entries.files, Entries.balance, seen]

theorem sendLoop_beyond (dirName : Path) {n sent : Int} {entries : Entries}
    (beyond : ¬entries.WithinLimits n sent) :
    (sendLoop dirName n entries sent).1.length < (entries.files dirName).length := by
  induction entries generalizing dirName n sent with
  | done => exact absurd trivial beyond
  | file name rest ih =>
      by_cases room : n ≠ -1 → sent < n
      · rw [sendLoop_file dirName name rest room]
        exact Nat.succ_lt_succ (ih dirName fun within => beyond ⟨room, within⟩)
      · have full : n ≠ -1 ∧ n ≤ sent := by simpa using room
        rw [sendLoop_stopped dirName name rest full.1 full.2]
        exact Nat.succ_pos _
  | other name rest ih => exact ih dirName beyond
  | directory name opens entries rest inner ih =>
      simp only [Entries.WithinLimits] at beyond
      by_cases seen : undotted name
      · rw [if_pos seen] at beyond
        cases opens with
        | true =>
            rw [sendLoop_entered seen]
            simp only [Entries.files, seen, if_true, and_self, List.length_append]
            by_cases within : entries.WithinLimits (n - sent) 0
            · have lost := ih dirName fun later => beyond ⟨fun _ => within, later⟩
              rw [sendLoop_within (fileName dirName name) within]
              exact Nat.add_lt_add_left lost _
            · have lost := inner (fileName dirName name) within
              have later := (sendLoop_sublist dirName n rest
                (sent + (sendLoop (fileName dirName name) (n - sent) entries 0).2)).length_le
              omega
        | false =>
            have lost := ih dirName fun later => beyond ⟨nofun, later⟩
            rw [sendLoop_closed seen]
            simpa [Entries.files, seen] using lost
      · rw [if_neg seen] at beyond
        rw [sendLoop_skipped seen]
        simpa [Entries.files, seen] using ih dirName beyond

/-! ## The limit -/

/-- A limited upload: the directory opens, and so does every visible one up to the limit, and no
directory that has files among the first `n` has a regular file after them. An unlimited one: the limits
that directories which do not open leave to later ones are large enough. -/
def KeepsLimit (n : Int) (opens : Bool) (entries : Entries) : Prop :=
  if n = -1 then opens → entries.WithinLimits n 0 else opens ∧ entries.EndsCleanly n 0

theorem nodup_sendFilesDirectory {entries : Entries} (named : entries.WellNamed) (dirName : Path) (n : Int)
    (opens : Bool) : (sendFilesDirectory dirName n opens entries).1.Nodup := by
  cases opens with
  | true => exact (entries.nodup_files named dirName).sublist (sendLoop_sublist dirName n entries 0)
  | false => exact List.nodup_nil

theorem sendFilesDirectory_subset (dirName : Path) (n : Int) (opens : Bool) (entries : Entries) :
    ∀ path ∈ (sendFilesDirectory dirName n opens entries).1, path ∈ reachable dirName opens entries := by
  cases opens with
  | true => exact fun path issued => (sendLoop_sublist dirName n entries 0).subset issued
  | false => nofun

theorem sendFilesDirectory_limited (dirName : Path) {n : Int} (positive : 1 ≤ n) (opens : Bool)
    (entries : Entries) :
    (((sendFilesDirectory dirName n opens entries).1.length : Int) =
        min n (reachable dirName opens entries).length ∧
      (sendFilesDirectory dirName n opens entries).2 = min n (reachable dirName opens entries).length) ↔
      opens ∧ entries.EndsCleanly n 0 := by
  cases opens with
  | false =>
      simp only [sendFilesDirectory, reachable, Bool.false_eq_true, if_false, false_and, iff_false,
        List.length_nil]
      omega
  | true =>
      simp only [sendFilesDirectory, reachable, if_true, true_and, Entries.length_files]
      constructor
      · rintro ⟨taken, returned⟩
        by_contra unclean
        have lost := sendLoop_unclean dirName le_rfl (by omega : (0 : Int) ≤ n) unclean
        omega
      · intro clean
        have all := sendLoop_clean dirName le_rfl (by omega : (0 : Int) ≤ n) clean
        omega

theorem sendFilesDirectory_unlimited (dirName : Path) {n : Int} {entries : Entries}
    (named : entries.WellNamed) (opens : Bool) :
    (∀ path, path ∈ (sendFilesDirectory dirName n opens entries).1 ↔
        path ∈ reachable dirName opens entries) ↔ (opens → entries.WithinLimits n 0) := by
  cases opens with
  | false => simp [sendFilesDirectory, reachable]
  | true =>
      simp only [sendFilesDirectory, reachable, if_true, forall_const]
      constructor
      · intro same
        by_contra beyond
        have all : (entries.files dirName).Subperm (sendLoop dirName n entries 0).1 :=
          List.subperm_of_subset (entries.nodup_files named dirName) fun path there => (same path).mpr there
        exact absurd all.length_le (not_le.mpr (sendLoop_beyond dirName beyond))
      · intro within path
        rw [sendLoop_within dirName within]

/-- An upload keeps to its limit exactly on the trees where the counts that it returns and hands down
are those of the files. -/
theorem upload_limit (dirName : Path) {n : Int} (limit : n = -1 ∨ 1 ≤ n) (opens : Bool) {entries : Entries}
    (named : entries.WellNamed) :
    RespectsLimit dirName n opens entries ↔ KeepsLimit n opens entries := by
  have once := nodup_sendFilesDirectory named dirName n opens
  have from_there := sendFilesDirectory_subset dirName n opens entries
  simp only [RespectsLimit, KeepsLimit, once, true_and]
  by_cases unlimited : n = -1
  · rw [if_pos unlimited, if_pos unlimited]
    exact sendFilesDirectory_unlimited dirName named opens
  · have positive : 1 ≤ n := limit.resolve_left unlimited
    rw [if_neg unlimited, if_neg unlimited, and_iff_right from_there]
    exact sendFilesDirectory_limited dirName positive opens entries

theorem upload_limit_example :
    RespectsLimit [119] 1 true (.directory [100] true (.file [97] .done) .done) ↔
      KeepsLimit 1 true (.directory [100] true (.file [97] .done) .done) :=
  upload_limit [119] (.inr (by decide)) true
    ⟨⟨by decide, by decide⟩, ⟨⟨by decide, by decide⟩, trivial⟩, trivial⟩

/-- The subdirectory meets the limit with its second file, and returns 0: the next file is sent too. -/
theorem upload_forgets :
    ¬RespectsLimit [119] 1 true
      (.directory [100] true (.file [97] (.file [98] .done)) (.file [99] .done)) := by
  intro respects
  have limited := respects.2
  rw [if_neg (by decide)] at limited
  exact absurd limited.2.1 (by decide)

end FileServer
