import FileServer.Proof.Sequential.Allocation
import FileServer.Proof.Concurrent.Steps

/-!
# The course of a request

Every handler, served alone, as a sequence of the steps of `Allocation.lean` between others that leave
the counter of files, the table and the page counts alone.
-/

namespace FileServer
open Program

def Op.neutral : Op → Bool
  | .pageTake | .stackGetTop _ => false
  | .lock _ | .unlock _ | .store _ (.size _) | .store _ (.clientsOpened _) => true
  | o => o.quiet

def Op.flat : Op → Bool
  | .stackPush _ | .stackDedup _ | .stackMove _ _ | .stackClear _ | .stackSetTop _ => false
  | _ => true

def Op.plain (o : Op) : Bool := o.neutral && o.flat

def Op.blind : Op → Bool
  | .memcpy _ _ _ _ | .memRead _ _ => false
  | _ => true

def Op.still (o : Op) : Bool := o.plain && o.blind
def Op.tidy (o : Op) : Bool := o.neutral && o.blind
def Op.bare (o : Op) : Bool := o.flat && o.blind

/-- An accepted `fileWrite` or `fileAppend` from where it starts to take pages up to its end. -/
def Allocates {W : Type} (cfg : Config) (admits : Server W → Op → Prop) (f : FileId)
    (t t' : Server W) : Prop :=
  ∃ u, Relation.ReflTransGen (PageStep cfg admits f) t u ∧ Settles u.store t'.store

inductive Course {W : Type} (cfg : Config) (admits : Server W → Op → Prop) (s s' : Server W) :
    Request → Prop where
  | settled {r} (settles : Settles s.store s'.store) : Course cfg admits s s' r
  | created {path} (store : s'.store = s.store.create cfg path) :
      Course cfg admits s s' (.fileInit path)
  | deleted {path pid v file} {t : Server W} (store : t.store = s.store) (removes : Removes cfg t s' v file)
      (freed : Freed admits t v) : Course cfg admits s s' (.fileDelete path pid)
  | written {path pid n data f file file'} {t u : Server W} (store : t.store = s.store)
      (searched : s.store.lookup cfg path = .ok (some f))
      (target : f ∈ s.store.recorded) (found : s.store.files f = some file) (empty : file.pagesN = 0)
      (others : ∀ g ∈ s'.store.recorded, g ∈ s.store.recorded ∧ (g ≠ f → Kept s.store s'.store g))
      (counted : CountStep cfg admits f (t.setFile f (some (file.write (.size n)))) u)
      (allocates : Allocates cfg admits f u s') (recorded : f ∈ s'.store.recorded)
      (found' : s'.store.files f = some file') (filled : file'.pagesN ≠ 0) :
      Course cfg admits s s' (.fileWrite path pid n data)
  | appended {path pid n data f file file'} {t : Server W} (store : t.store = s.store)
      (target : f ∈ s.store.recorded) (found : s.store.files f = some file)
      (hasPages : file.pagesN ≠ 0)
      (others : ∀ g ∈ s'.store.recorded, g ∈ s.store.recorded ∧ (g ≠ f → Kept s.store s'.store g))
      (allocates : Allocates cfg admits f t s') (recorded : f ∈ s'.store.recorded) (found' : s'.store.files f = some file')
      (filled : file'.pagesN ≠ 0) : Course cfg admits s s' (.fileAppend path pid n data)

section
variable {W α : Type} {admits : Server W → Op → Prop} {cfg : Config} {w : W} {s t t' : Server W}
  {f v : FileId} {file : MemFile} {path : Path} {busy : Option FileId} {extra : List Nat}

namespace Settles
variable {σ σ₁ σ₂ : Store}

theorem refl (σ : Store) : Settles σ σ := ⟨rfl, rfl, fun _ => rfl⟩

theorem trans (first : Settles σ σ₁) (second : Settles σ₁ σ₂) : Settles σ σ₂ :=
  ⟨second.table.trans first.table, second.fileN.trans first.fileN,
    fun g => (second.pagesN g).trans (first.pagesN g)⟩

theorem setFile {file' : MemFile} (found : t.store.files f = some file)
    (same : file'.pagesN = file.pagesN) : Settles t.store (t.setFile f (some file')).store := by
  refine ⟨rfl, rfl, fun g => ?_⟩
  by_cases here : g = f
  · subst here
    show Option.map _ (Function.update t.store.files g (some file') g) = _
    rw [Function.update_self, found, Option.map_some, Option.map_some, same]
  · show Option.map _ (Function.update t.store.files f (some file') g) = _
    rw [Function.update_of_ne here]

end Settles

theorem Op.calm_of_neutral {o : Op} (neutral : o.neutral = true) : o.calm = true := by
  cases o with
  | pageTake | stackGetTop path => cases neutral
  | _ => rfl

theorem Op.neutral_of_plain {o : Op} (plain : o.plain = true) : o.neutral = true :=
  (Bool.and_eq_true_iff.mp plain).1

theorem Op.flat_of_plain {o : Op} (plain : o.plain = true) : o.flat = true :=
  (Bool.and_eq_true_iff.mp plain).2

theorem exec_neutral {o : Op} {x : o.Resp} (neutral : o.neutral = true)
    (step : Server.exec cfg w o t = .ok (x, t')) : Settles t.store t'.store := by
  have quiet (quiet : o.quiet = true) : Settles t.store t'.store := by
    have same := exec_quiet quiet step
    exact ⟨same.table, same.fileN, fun g => by rw [same.files]⟩
  cases o with
  | pageTake | stackGetTop path => cases neutral
  | lock m =>
      obtain ⟨-, -, rfl⟩ := exec_lock step
      exact .refl _
  | unlock m =>
      cases exec_unlock step
      exact .refl _
  | store f field =>
      obtain ⟨file, found, rfl⟩ := exec_store step
      cases field with
      | size n => exact .setFile found rfl
      | clientsOpened clients => exact .setFile found rfl
      | _ => cases neutral
  | _ => exact quiet neutral

theorem run_next {p : Handler α} {a : α} (ends : (server W cfg).run w p t = .ok (a, t')) :
    t.store.next ≤ t'.store.next :=
  (server W cfg).run_keeps (R := fun s s' => s.store.next ≤ s'.store.next) (fun _ => Nat.le_refl _)
    (fun _ _ _ => Nat.le_trans) (fun _ _ _ _ step => exec_next step) ends

/-- A program of such operations. -/
theorem passes_neutral {p : Handler α} (neutral : p.All (·.neutral = true)) (t : Server W) :
    Passes admits cfg w s p (fun _ t' => Settles t.store t'.store) t := by
  induction p generalizing t with
  | ret a => exact .refl _
  | op o next ih =>
      refine ⟨.calm (Op.calm_of_neutral neutral.1), fun x t₁ step => ?_⟩
      have first := exec_neutral neutral.1 step.2
      exact wp_mono (ih x (neutral.2 x) t₁) fun _ t' rest => first.trans rest

theorem plain_call {o : Op} (plain : o.plain = true) : (call o).All (·.plain = true) :=
  (all_perform o).mpr plain

theorem plain_abort (e : Fault) : (abort e : Handler α).All (·.plain = true) :=
  ⟨rfl, fun x => x.elim⟩

theorem still_call {o : Op} (still : o.still = true) : (call o).All (·.still = true) :=
  (all_perform o).mpr still

theorem still_abort (e : Fault) : (abort e : Handler α).All (·.still = true) :=
  ⟨rfl, fun x => x.elim⟩

theorem plain_of_still {p : Handler α} (still : p.All (·.still = true)) : p.All (·.plain = true) :=
  still.mono fun _ still => (Bool.and_eq_true_iff.mp still).1

theorem still_hashGetFile (str : CStr) : (hashGetFile str .src).All (·.still = true) :=
  (still_call rfl).bind fun _ => (still_call rfl).bind fun _ => (still_call rfl).bind fun _ =>
    all_pure _

theorem plain_addPageToMem (input : List UInt8) (f : FileId) (pageInd : Int) (size : Nat)
    (offset : Int) : (addPageToMem cfg input f pageInd size offset).All (·.plain = true) := by
  unfold addPageToMem
  refine .ite (all_pure _) ((plain_call rfl).bind fun file =>
    .ite ((plain_abort _).bind fun x => ?_) ?_)
  all_goals
    cases file.pages[pageInd.toNat]? with
    | none => exact plain_abort _
    | some index => exact (plain_call rfl).bind fun _ => all_pure _

theorem plain_writePages (f : FileId) (n toWrite : Nat) (input : List UInt8) :
    (writePages cfg f n toWrite input).All (·.plain = true) := by
  induction n generalizing toWrite input with
  | zero => trivial
  | succ n ih => exact (plain_addPageToMem ..).bind fun _ => ih ..

theorem neutral_call {o : Op} (neutral : o.neutral = true) : (call o).All (·.neutral = true) :=
  (all_perform o).mpr neutral

theorem neutral_of_plain {p : Handler α} (plain : p.All (·.plain = true)) : p.All (·.neutral = true) :=
  plain.mono fun _ => Op.neutral_of_plain

theorem tidy_call {o : Op} (tidy : o.tidy = true) : (call o).All (·.tidy = true) :=
  (all_perform o).mpr tidy

theorem tidy_of_still {p : Handler α} (still : p.All (·.still = true)) : p.All (·.tidy = true) := by
  refine still.mono fun o still => Bool.and_eq_true_iff.mpr ?_
  obtain ⟨plain, blind⟩ := Bool.and_eq_true_iff.mp still
  exact ⟨Op.neutral_of_plain plain, blind⟩

theorem neutral_of_still {p : Handler α} (still : p.All (·.still = true)) :
    p.All (·.neutral = true) :=
  neutral_of_plain (plain_of_still still)

theorem neutral_of_tidy {p : Handler α} (tidy : p.All (·.tidy = true)) : p.All (·.neutral = true) :=
  tidy.mono fun _ tidy => (Bool.and_eq_true_iff.mp tidy).1

theorem tidy_fileStackDefragLoop (n i last : Nat) :
    (fileStackDefragLoop n i last).All (·.tidy = true) := by
  induction n generalizing i last with
  | zero => trivial
  | succ n ih =>
      unfold fileStackDefragLoop
      refine (tidy_call rfl).bind fun cell => ?_
      cases cell with
      | none => exact ih ..
      | some name =>
          refine (tidy_of_still (still_hashGetFile _)).bind fun found => ?_
          cases found with
          | none => exact (tidy_call rfl).bind fun _ => ih ..
          | some f => exact (tidy_call rfl).bind fun _ => ih ..

theorem tidy_fileStackDefrag : fileStackDefrag.All (·.tidy = true) :=
  (tidy_call rfl).bind fun _ => (tidy_call rfl).bind fun _ =>
    (tidy_fileStackDefragLoop ..).bind fun _ => (tidy_call rfl).bind fun _ => tidy_call rfl

theorem tidy_fileStackAdd (str : CStr) : (fileStackAdd str).All (·.tidy = true) := by
  unfold fileStackAdd
  have push : (do call (.stackPush str); unlock .filestack : Handler Unit).All (·.tidy = true) :=
    (tidy_call rfl).bind fun _ => tidy_call rfl
  refine (tidy_call rfl).bind fun _ => (tidy_call rfl).bind fun _ => (tidy_call rfl).bind
    fun _ => .ite (tidy_fileStackDefrag.bind fun _ => push) push

theorem still_fileOpenCheck (path : Path) (pid : Pid) :
    (fileOpenCheck path pid).All (·.still = true) := by
  unfold fileOpenCheck fileSearchSilent
  refine ((still_hashGetFile _).bind fun _ => all_pure _).bind fun (fileNotExists, filePtr) =>
    .ite (all_pure _) ?_
  cases filePtr with
  | none => exact all_pure _
  | some f => exact (still_call rfl).bind fun _ => (still_call rfl).bind fun _ =>
      (still_call rfl).bind fun _ => all_pure _

theorem calm_fileOpenCheck (path : Path) (pid : Pid) :
    (fileOpenCheck path pid).All (·.calm = true) :=
  (plain_of_still (still_fileOpenCheck path pid)).mono fun _ plain => Op.calm_of_neutral (Op.neutral_of_plain plain)

theorem plain_sendPages (fd : Nat) (f : FileId) (n i : Nat) :
    (sendPages cfg fd f n i).All (·.plain = true) := by
  induction n generalizing i with
  | zero => trivial
  | succ n ih =>
      unfold sendPages
      refine (plain_call rfl).bind fun file => ?_
      cases file.pages[i]? with
      | none => exact plain_abort _
      | some page => exact (plain_call rfl).bind fun _ => (plain_call rfl).bind fun _ => ih ..

theorem plain_sendFile (fd : Nat) (f : FileId) : (sendFile cfg fd f).All (·.plain = true) := by
  unfold sendFile
  refine (plain_call rfl).bind fun _ => (plain_call rfl).bind fun file =>
    (plain_call rfl).bind fun _ => .ite ((plain_sendPages ..).bind fun _ => ?_) (plain_call rfl)
  cases file.pages[file.pagesN - 1]? with
  | none => exact (plain_abort _).bind fun _ => plain_call rfl
  | some page =>
      exact (plain_call rfl).bind fun _ => (plain_call rfl).bind fun _ => plain_call rfl

theorem still_deref (ptr : Option FileId) : (deref ptr).All (·.still = true) := by
  cases ptr with
  | none => exact still_abort _
  | some f => trivial

theorem plain_fileRead (fd : Nat) (path : Path) (pid : Pid) :
    (fileRead cfg fd path pid).All (·.plain = true) :=
  (plain_of_still (still_fileOpenCheck ..)).bind fun _ => (plain_call rfl).bind fun _ =>
    .ite ((plain_of_still (still_deref _)).bind fun _ => plain_sendFile ..) (all_pure _)

theorem all_arrayCopy (n i : Nat) :
    (arrayCopy n i).All fun o => o = .abort .nullString ∨ ∃ i, o = .stackCell i := by
  induction n generalizing i with
  | zero => trivial
  | succ n ih =>
      unfold arrayCopy
      refine All.bind ((all_perform _).mpr (.inr ⟨i, rfl⟩)) fun cell => ?_
      cases cell with
      | none => exact ⟨.inl rfl, fun x => x.elim⟩
      | some name => exact (ih _).bind fun _ => all_pure _

theorem still_arrayCopy (n i : Nat) : (arrayCopy n i).All (·.still = true) := by
  refine (all_arrayCopy n i).mono fun o copies => ?_
  obtain rfl | ⟨i, rfl⟩ := copies <;> rfl

theorem plain_fileNReadLoop (fd : Nat) (names : List Path) (n i : Nat) :
    (fileNReadLoop cfg fd names n i).All (·.plain = true) := by
  induction n generalizing i with
  | zero => trivial
  | succ n ih =>
      unfold fileNReadLoop
      refine (plain_call rfl).bind fun top => .ite ?_ (all_pure _)
      cases names[i]? with
      | none => exact plain_abort _
      | some name =>
          refine (plain_of_still (still_hashGetFile _)).bind fun found => ?_
          cases found with
          | none => exact ih _
          | some f =>
              refine (plain_call rfl).bind fun _ => (plain_call rfl).bind fun file => ?_
              cases fileShortenName file.abspath with
              | none => exact (plain_abort _).bind fun _ => ih _
              | some nameSent => exact (plain_call rfl).bind fun _ => (plain_call rfl).bind fun _ =>
                  (plain_call rfl).bind fun _ => (plain_sendFile ..).bind fun _ => ih _

theorem fileNRead_eq (fd : Nat) (fileNum : Int) (rand : Nat → Nat) :
    ∃ rest, fileNRead cfg fd fileNum rand = (do fileStackDefrag; rest) ∧ rest.All (·.plain = true) := by
  refine ⟨_, rfl, ?_⟩
  refine (plain_call rfl).bind fun _ => (plain_call rfl).bind fun arrS =>
    ((plain_of_still (still_arrayCopy ..)).bind fun _ => all_pure _).bind fun names =>
      (plain_call rfl).bind fun _ => ?_
  have rest (fileNum : Int) : (do
      fileNReadLoop cfg fd names fileNum.toNat 0
      writeNB fd (.int 0) : Handler Unit).All (·.plain = true) :=
    (plain_fileNReadLoop ..).bind fun _ => plain_call rfl
  exact .ite (((plain_call rfl).bind fun _ => all_pure _).bind fun _ => rest _) (rest _)

theorem neutral_fileNRead (fd : Nat) (fileNum : Int) (rand : Nat → Nat) :
    (fileNRead cfg fd fileNum rand).All (·.neutral = true) := by
  obtain ⟨rest, same, plain⟩ : ∃ rest, fileNRead cfg fd fileNum rand = _ ∧ _ :=
    fileNRead_eq fd fileNum rand
  rw [same]
  exact (neutral_of_tidy tidy_fileStackDefrag).bind fun _ => neutral_of_plain plain

theorem still_fileOpen (fd : Nat) (path : Path) (pid : Pid) :
    (fileOpen fd path pid).All (·.still = true) :=
  ((still_hashGetFile _).bind fun _ => all_pure _).bind fun _ => (still_call rfl).bind fun _ =>
    .ite ((still_deref _).bind fun _ => (still_call rfl).bind fun _ => (still_call rfl).bind
      fun _ => (still_call rfl).bind fun _ => still_call rfl) (all_pure _)

theorem still_fileClose (fd : Nat) (path : Path) (pid : Pid) :
    (fileClose fd path pid).All (·.still = true) := by
  unfold fileClose
  refine ((still_hashGetFile _).bind fun _ => all_pure _).bind fun (reqErr, fileReq) =>
    (still_call rfl).bind fun _ => ?_
  cases fileReq with
  | none => exact all_pure _
  | some f => exact .ite ((still_call rfl).bind fun _ => (still_call rfl).bind fun _ =>
      (still_call rfl).bind fun _ => still_call rfl) (all_pure _)

theorem still_fileSearch (fd : Nat) (path : Path) :
    (fileSearch fd path).All (·.still = true) :=
  (still_hashGetFile _).bind fun _ => (still_call rfl).bind fun _ => all_pure _

theorem plain_appendData (f : FileId) (oldPages size n : Nat) (avail overflow : Int)
    (data : List UInt8) : (appendData cfg f oldPages size n avail overflow data).All
      (·.plain = true) := by
  unfold appendData
  have rest : (do
      let firstAdd := if sizeT avail < n then avail else cInt n
      let input := data.take n
      let _ ← addPageToMem cfg input f (oldPages - 1 : Int) (sizeT firstAdd)
        (cInt ((size % cfg.pageSize : Nat)))
      let pagesN := (← load f).pagesN
      let rest ← writePages cfg f (pagesN - 1 - oldPages) oldPages (input.drop firstAdd.toNat)
      if oldPages ≠ pagesN then
        let _ ← addPageToMem cfg rest f (max oldPages (pagesN - 1) : Nat)
          (sizeT overflow % cfg.pageSize) 0 : Handler Unit).All (·.plain = true) :=
    (plain_addPageToMem ..).bind fun _ => (plain_call rfl).bind fun _ =>
      (plain_writePages ..).bind fun _ => .ite ((plain_addPageToMem ..).bind fun _ => all_pure _)
        (all_pure _)
  exact .ite ((plain_abort _).bind fun _ => rest) rest

/-! ## Writes and appends -/

theorem Idle.midway (idle : Idle cfg s) (mem : f ∈ s.store.recorded) (fd : Nat) (msg : Msg) :
    Midway cfg w s f ((s.setOwner (.file f) (some w)).send fd msg) :=
  ⟨mem, ⟨fd, msg, .refl _ _⟩, none, [], nofun, idle.consistent⟩

theorem passes_writeAccepted (fuel fd fileSize : Nat) (data : List UInt8) (midway : Midway cfg w s f t)
    (same : t.store = s.store) (consistent : Consistent cfg none [] t.store) (found : t.store.files f = some file)
    (empty : file.pagesN = 0) :
    Passes admits cfg w s (writeAccepted cfg fuel fd f fileSize data)
      (fun _ t' => ∃ u, CountStep cfg admits f (t.setFile f (some (file.write (.size fileSize)))) u ∧
        Allocates cfg admits f u t') t := by
  have only : ∀ g, some f = some g → g = f := fun g same => (Option.some.inj same).symm
  have noPages : file.pages = [] := by
    have filled := (consistent.shaped f file midway.recorded found nofun).filled
    exact List.length_eq_zero_iff.mp (filled.trans empty)
  unfold writeAccepted
  rw [passes_bind]
  refine (ends_store.mpr fun file₀ here => ?_).passes (calm_store ..)
  cases Option.some.inj (here.symm.trans found)
  have consistent₁ : Consistent cfg (some f) []
      (t.setFile f (some (file.write (.size fileSize)))).store :=
    consistent.setFile midway.recorded found rfl (.refl _) nofun
  have midway₁ := (Stretch.give admits midway consistent₁ found).1
  have held : ∀ g, some f = some g →
      (t.setFile f (some (file.write (.size fileSize)))).owner (.file g) ≠ none := by
    intro g same
    rw [only g same, midway₁.held]
    nofun
  rw [passes_bind]
  have settles : Settles s.store (t.setFile f (some (file.write (.size fileSize)))).store := by
    rw [← same]
    exact .setFile found rfl
  refine wp_mono ((passes_fileNUpdate midway₁ settles consistent₁ only).ends
    (ends_fileNUpdate cfg.fileMax consistent₁ held)) ?_
  rintro _ u ⟨counted, consistent₂, shrinks₂⟩
  have midway₂ := midway₁.moves (shrinks₂.weaken _) consistent₂ only
  have found₂ := (shrinks₂.files f midway₂.recorded nofun).trans (Function.update_self ..)
  rw [passes_bind]
  refine wp_mono (passes_filePagesInitialize fuel midway₂ consistent₂ found₂ noPages) ?_
  intro _ u₁ stretch
  have tail : (do
      let pagesN := (← load f).pagesN
      let rest ← writePages cfg f (pagesN - 1) 0 (data.take fileSize)
      let _ ← addPageToMem cfg rest f (pagesN - 1 : Nat) (lastPageSize cfg fileSize) 0
      fileStackAdd (.abspath f)
      unlock (.file f)
      writeNB fd (.int 0) : Handler Unit).All (·.neutral = true) :=
    (neutral_call rfl).bind fun _ => (neutral_of_plain (plain_writePages ..)).bind fun _ =>
      (neutral_of_plain (plain_addPageToMem ..)).bind fun _ => (neutral_of_tidy (tidy_fileStackAdd _)).bind fun _ =>
        (neutral_call rfl).bind fun _ => neutral_call rfl
  exact wp_mono (passes_neutral tail u₁) fun _ t' settles => ⟨u, counted, ⟨u₁, stretch.steps, settles⟩⟩

theorem passes_appendAccepted (fuel fd n : Nat) (data : List UInt8) (midway : Midway cfg w s f t)
    (consistent : Consistent cfg none [] t.store) :
    Passes admits cfg w s (appendAccepted cfg fuel fd f file n data)
      (fun _ t' => Allocates cfg admits f t t') t := by
  unfold appendAccepted
  dsimp only
  rw [passes_bind]
  refine wp_mono (passes_filePagesRenew fuel _ midway consistent) fun _ u steps => ?_
  have tail (avail overflow : Int) :
      (appendRest cfg fd f file n avail overflow data).All (·.neutral = true) :=
    (neutral_of_plain (plain_appendData ..)).bind fun _ => (neutral_call rfl).bind fun _ =>
      (neutral_call rfl).bind fun _ => neutral_call rfl
  exact wp_mono (passes_neutral (tail _ _) u) fun _ t' settles => ⟨u, steps, settles⟩

theorem passes_fileWrite (fuel fd : Nat) (path : Path) (pid : Pid) {fileSize : Nat}
    {data : List UInt8} (idle : Idle cfg s) (length : data.length = fileSize) :
    Passes admits cfg w s (fileWrite cfg fuel fd path pid fileSize data)
      (fun _ s' => Course cfg admits s s' (.fileWrite path pid fileSize data)) s := by
  unfold fileWrite
  rw [passes_bind]
  rcases idle.lookup path with missing | ⟨f, file, searched, mem, found⟩
  · refine ((ends_of_run (idle.run_fileOpenCheck_missing w pid missing)).mpr ?_).passes
      (calm_fileOpenCheck ..)
    exact ⟨.calm rfl, fun x => x.elim⟩
  · refine ((ends_of_run (idle.run_fileOpenCheck w pid searched found)).mpr ?_).passes
      (calm_fileOpenCheck ..)
    dsimp only
    rw [passes_bind]
    refine (ends_deref.mpr fun _ same => ?_).passes (calm_deref _)
    cases same
    rw [passes_bind]
    refine ((ends_of_run (idle.relock w found).1).mpr ?_).passes (calm_lock _)
    rw [passes_bind]
    refine (ends_load.mpr fun file' same => ?_).passes (calm_load f)
    cases Option.some.inj (same.symm.trans found)
    rw [passes_bind]
    refine (ends_writeNB.mpr ?_).passes (calm_writeNB ..)
    change Passes admits cfg w s (if writeError cfg file pid fileSize ≠ 0 then unlock (.file f)
      else writeAccepted cfg fuel fd f fileSize data) _
      ((s.setOwner (.file f) (some w)).send fd (.int (writeError cfg file pid fileSize)))
    by_cases refused : writeError cfg file pid fileSize ≠ 0
    · rw [if_pos refused]
      exact wp_mono (passes_neutral (neutral_call rfl) _) fun _ _ settles => .settled settles
    · rw [if_neg refused]
      obtain ⟨fits, empty, -⟩ := writeError_eq_zero.mp (not_not.mp refused)
      have midway := idle.midway (w := w) mem fd (.int (writeError cfg file pid fileSize))
      refine wp_mono ((passes_writeAccepted fuel fd fileSize data midway rfl idle.consistent found
        empty).ends (ends_writeAccepted fuel fd idle mem found empty fits length nofun)) ?_
      rintro _ s' ⟨⟨u, counted, allocates⟩, nonempty, -, pages, -, rewrote⟩
      exact .written (by rfl) searched mem found empty rewrote.others counted allocates rewrote.recorded
        rewrote.found (Nat.ne_of_gt (pagesFor_pos cfg nonempty))

theorem passes_fileAppend (fuel fd : Nat) (path : Path) (pid : Pid) {n : Nat} {data : List UInt8}
    (idle : Idle cfg s) (length : data.length = n) (wellFormed : n < 2 ^ 64) :
    Passes admits cfg w s (fileAppend cfg fuel fd path pid n data)
      (fun _ s' => Course cfg admits s s' (.fileAppend path pid n data)) s := by
  unfold fileAppend
  rw [passes_bind]
  rcases idle.lookup path with missing | ⟨f, file, searched, mem, found⟩
  · refine ((ends_of_run (idle.run_fileOpenCheck_missing w pid missing)).mpr ?_).passes
      (calm_fileOpenCheck ..)
    exact ⟨.calm rfl, fun x => x.elim⟩
  · refine ((ends_of_run (idle.run_fileOpenCheck w pid searched found)).mpr ?_).passes
      (calm_fileOpenCheck ..)
    dsimp only
    rw [passes_bind]
    refine (ends_deref.mpr fun _ same => ?_).passes (calm_deref _)
    cases same
    rw [passes_bind]
    refine ((ends_of_run (idle.relock w found).1).mpr ?_).passes (calm_lock _)
    rw [passes_bind]
    refine (ends_load.mpr fun file' same => ?_).passes (calm_load f)
    cases Option.some.inj (same.symm.trans found)
    rw [passes_bind]
    refine (ends_writeNB.mpr ?_).passes (calm_writeNB ..)
    change Passes admits cfg w s (if appendError cfg file pid n ≠ 0 then unlock (.file f)
      else appendAccepted cfg fuel fd f file n data) _
      ((s.setOwner (.file f) (some w)).send fd (.int (appendError cfg file pid n)))
    by_cases refused : appendError cfg file pid n ≠ 0
    · rw [if_pos refused]
      exact wp_mono (passes_neutral (neutral_call rfl) _) fun _ _ settles => .settled settles
    · rw [if_neg refused]
      obtain ⟨checked, -⟩ := appendError_eq_zero.mp (not_not.mp refused)
      have midway := idle.midway (w := w) mem fd (.int (appendError cfg file pid n))
      have passes : Passes admits cfg w s (appendAccepted cfg fuel fd f file n data) _ _ :=
        passes_appendAccepted fuel fd n data midway idle.consistent
      have shaped := idle.consistent.shaped f file mem found nofun
      rcases appendSize_fits shaped wellFormed checked with fits | large
      · refine wp_mono (passes.ends (ends_appendAccepted fuel fd idle mem found fits length nofun)) ?_
        rintro _ s' ⟨allocates, hasPages, -, pages, -, rewrote⟩
        exact .appended (by rfl) mem found (Nat.ne_of_gt hasPages) rewrote.others allocates rewrote.recorded
          rewrote.found
          (Nat.ne_of_gt (Nat.add_pos_left hasPages _))
      · have fails : Ends False cfg w (appendAccepted cfg fuel fd f file n data) (fun _ _ => False)
            ((s.setOwner (.file f) (some w)).send fd (.int (appendError cfg file pid n))) :=
          ends_appendAccepted_large fuel fd n data large
        exact wp_mono (passes.ends fails) fun _ s' both => both.2.elim

/-! ## The other requests -/

theorem passes_fileDelete (fd : Nat) (path : Path) (pid : Pid) (idle : Idle cfg s) :
    Passes admits cfg w s (fileDelete fd path pid)
      (fun _ s' => Course cfg admits s s' (.fileDelete path pid)) s := by
  unfold fileDelete
  rw [passes_bind]
  rcases idle.lookup path with missing | ⟨f, file, searched, mem, found⟩
  · refine ((ends_of_run (idle.run_fileOpenCheck_missing w pid missing)).mpr ?_).passes
      (calm_fileOpenCheck ..)
    have rest : (do writeNB fd (.int ENOENT); return () : Handler Unit).All (·.neutral = true) :=
      (neutral_call rfl).bind fun _ => all_pure _
    exact wp_mono (passes_neutral rest s) fun _ _ settles => .settled settles
  · refine ((ends_of_run (idle.run_fileOpenCheck w pid searched found)).mpr ?_).passes
      (calm_fileOpenCheck ..)
    dsimp only
    rw [passes_bind]
    refine (ends_writeNB.mpr ?_).passes (calm_writeNB ..)
    by_cases refused : (if clientOpenSearch file.clientsOpened pid then 0 else EPERM) = 0
    · rw [if_pos refused]
      obtain ⟨t, named⟩ : ∃ t, s.send fd
          (.int (if clientOpenSearch file.clientsOpened pid then 0 else EPERM)) = t := ⟨_, rfl⟩
      have quiet : Quiet s t := named ▸ Quiet.send s fd _
      have same : t.store = s.store := by rw [← named]; rfl
      have mem' : f ∈ t.store.recorded := by rw [same]; exact mem
      have found' : t.store.files f = some file := by rw [same]; exact found
      have searched' : t.store.lookup cfg path = .ok (some f) := by rw [same]; exact searched
      have idle' := quiet.idle idle
      rw [named, passes_bind]
      refine (ends_deref.mpr fun _ same => ?_).passes (calm_deref _)
      cases same
      rw [passes_bind]
      refine ((ends_of_run (idle'.relock w found').1).mpr ?_).passes (calm_lock _)
      rw [passes_bind]
      refine (ends_hashGetFile (fun null => ?_) fun abspath result σ read removed => ?_).passes
        (calm_hashGetFile _ _)
      · obtain ⟨file', -, wrong⟩ := Server.onFile_eq_ok.mp null
        cases wrong
      obtain ⟨file', alive, same⟩ := Server.onFile_eq_ok.mp read
      cases same
      cases Option.some.inj (alive.symm.trans found')
      have fields := hashTbSearch_table removed
      have release : ((t.setOwner (.file f) (some w)).setStore σ).setOwner (.file f) none =
          t.setStore σ := Server.setOwner_release (t.setStore σ) (some w) (idle'.unlocked _)
      rw [passes_bind]
      refine (ends_unlock.mpr fun _ => ?_).passes (calm_unlock _)
      rw [release]
      have files : σ.files = t.store.files := by rw [fields]; rfl
      have filled := (idle'.consistent.shaped f file mem' found' nofun).filled
      have sameFile (file' : MemFile) (here : (t.setStore σ).store.files f = some file') :
          file' = file := by
        change σ.files f = some file' at here
        rw [files] at here
        exact Option.some.inj (here.symm.trans found')
      refine passes_fileFree (fun file' here => ?_) fun file' here admitted => ?_
      · rw [sameFile file' here]
        exact Nat.le_of_eq filled.symm
      · cases sameFile file' here
        refine .deleted (v := f) same ⟨found', idle'.unlocked _, ⟨path, searched'⟩, ⟨result, ?_⟩, ?_⟩
          ⟨t.setStore σ, files, admitted⟩
        · rw [fields] at removed
          exact removed
        · rw [fields]
          rfl
    · rw [if_neg refused]
      exact .settled (.refl _)

theorem passes_fileInit (fd : Nat) (path : Path) :
    Passes admits cfg w s (fileInit fd path)
      (fun _ s' => Course cfg admits s s' (.fileInit path)) s := by
  have calm : (fileInit fd path).All (·.calm = true) :=
    (calm_call rfl).bind fun _ => (calm_lock _).bind fun _ => (calm_lock _).bind fun _ =>
      (calm_call rfl).bind fun _ => (calm_unlock _).bind fun _ => (calm_unlock _).bind fun _ =>
        calm_writeNB ..
  exact wp_mono ((ends_fileInit_store fd path).passes calm) fun _ _ done => .created done.1

theorem passes_handle {r : Request} (fuel fd : Nat) (idle : Idle cfg s) (wellFormed : r.WellFormed) :
    Passes admits cfg w s (handle cfg fuel fd r) (fun _ s' => Course cfg admits s s' r) s := by
  have neutral {p : Handler Unit} (all : p.All (·.neutral = true)) :
      Passes admits cfg w s p (fun _ s' => Course cfg admits s s' r) s :=
    wp_mono (passes_neutral all s) fun _ _ settles => .settled settles
  cases r with
  | fileRead path pid => exact neutral (neutral_of_plain (plain_fileRead fd path pid))
  | fileNRead fileNum rand => exact neutral (neutral_fileNRead fd fileNum rand)
  | fileWrite path pid fileSize data => exact passes_fileWrite fuel fd path pid idle wellFormed.1
  | fileAppend path pid appendSize data =>
      exact passes_fileAppend fuel fd path pid idle wellFormed.1 wellFormed.2
  | fileOpen path pid => exact neutral (neutral_of_still (still_fileOpen fd path pid))
  | fileClose path pid => exact neutral (neutral_of_still (still_fileClose fd path pid))
  | fileDelete path pid => exact passes_fileDelete fd path pid idle
  | fileLock => exact .settled (.refl _)
  | fileUnlock => exact .settled (.refl _)
  | fileSearch path => exact neutral (neutral_of_still ((still_fileSearch fd path).bind fun _ => all_pure _))
  | fileInit path => exact passes_fileInit fd path

theorem event_of_visits {r : Request} {fuel fd : Nat} {o : Op} (idle : Idle cfg s)
    (wellFormed : r.WellFormed) (visits : (server W cfg).Visits w (handle cfg fuel fd r) s o t) :
    Event cfg w s t o := by
  have passes : Passes (fun _ _ => True) cfg w s (handle cfg fuel fd r) _ s :=
    passes_handle fuel fd idle wellFormed
  exact Machine.visits_of_along passes (fun _ _ _ => trivial) visits

end

end FileServer
