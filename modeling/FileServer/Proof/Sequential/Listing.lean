import FileServer.Proof.Sequential.EvictionSequence
import FileServer.Proof.Sequential.Naming

/-!
# What the stack of names lists

Every file that holds pages has its name below the top of the stack, as long as a name is given to one
file at a time.
-/

namespace FileServer
open Program

def Store.Listed (cfg : Config) (σ : Store) (f : FileId) : Prop := ∃ i name, σ.Lists cfg i name f

structure Listing (cfg : Config) (but : Option FileId) (σ : Store) : Prop where
  tidy : σ.Tidy
  listed : ∀ g ∈ σ.recorded, some g ≠ but → σ.holdsPages g = true → σ.Listed cfg g

structure SameNames (σ σ' : Store) : Prop where
  fstack : σ'.fstack = σ.fstack
  table : σ'.table = σ.table
  paths : ∀ g, σ'.pathAt g = σ.pathAt g

structure Retains (cfg : Config) (f : FileId) (σ σ' : Store) : Prop where
  listing : Listing cfg (some f) σ'
  path : σ'.pathAt f = σ.pathAt f
  listed : σ.Listed cfg f → σ'.Listed cfg f
  found : ∀ name, σ.lookup cfg name = .ok (some f) → σ'.lookup cfg name = .ok (some f)

section
variable {W α : Type} {admits : Server W → Op → Prop} {cfg : Config} {w : W} {s s' t t' : Server W}
  {σ σ' : Store} {f g v : FileId} {file : MemFile} {path : Option Path} {name : Path}
  {but : Option FileId} {fuel fd : Nat}

/-! ## Evictions -/

theorem FileStack.getTop_others {search : Path → Outcome Fault (Option FileId)} {stack stack' : FileStack}
    {j : Nat} (chosen : stack.getTop search path = .ok (v, stack')) (below : j < stack.top)
    (cell : stack.stack[j]? = some (some name)) (found : search name = .ok (some g)) (other : g ≠ v) :
    j < stack'.top ∧ stack'.stack[j]? = some (some name) := by
  obtain ⟨-, i, scan, rfl⟩ := getTop_eq_scan.mp chosen
  obtain ⟨inside, named, cell', found'⟩ := scanDown_found scan
  have apart : j ≠ i := by
    rintro rfl
    cases cell.symm.trans cell'
    cases found.symm.trans found'
    exact other rfl
  refine ⟨?_, (List.getElem?_set_ne (Ne.symm apart)).trans cell⟩
  show j < if _ then _ else i
  split
  · exact below
  · rename_i self
    by_contra above
    rw [scanned, if_neg self] at scan
    exact scanDown_below scan j g (by omega) below ⟨name, cell, found⟩

theorem Store.tidy_congr (tidy : σ.Tidy) (table : σ'.table = σ.table)
    (paths : ∀ g, σ'.pathAt g = σ.pathAt g) : σ'.Tidy := by
  have recorded : σ'.recorded = σ.recorded := by
    unfold recorded
    rw [table]
  refine ⟨recorded ▸ tidy.nodup, fun g mem gone => ?_⟩
  rw [recorded] at mem
  have same := paths g
  rw [pathAt, gone] at same
  exact tidy.alive g mem (Option.map_eq_none_iff.mp same.symm)

theorem Removes.leaving (tidy : s.store.Tidy) (removes : Removes cfg s s' v file) (mem : v ∈ s.store.recorded)
    (gone : v ∉ s'.store.recorded) :
    s'.store.table = (s.store.without v).table ∧ s'.store.files = (s.store.without v).files := by
  have files : s'.store.files = (s.store.without v).files := by
    rw [removes.result]
    rfl
  obtain ⟨found, removed⟩ := removes.removed
  obtain ⟨σ, left⟩ : ∃ σ : Store, { s.store with table := s'.store.table } = σ := ⟨_, rfl⟩
  have table : s'.store.table = σ.table := by rw [← left]
  have recorded : s'.store.recorded = σ.recorded := congrArg (fun table => table.flatten.map HashEntry.data) table
  rw [left] at removed
  rw [recorded] at gone
  cases found with
  | none =>
      rw [(Store.hashTbSearch_none removed).1] at gone
      exact absurd mem gone
  | some u =>
      have perm := Store.hashTbSearch_del_recorded removed
      rcases List.mem_cons.mp (perm.mem_iff.mp mem) with rfl | stays
      · exact ⟨table.trans (Store.hashTbSearch_del_without tidy.nodup removed), files⟩
      · exact absurd stays gone

theorem Removes.tidy (tidy : s.store.Tidy) (removes : Removes cfg s s' v file) (mem : v ∈ s.store.recorded)
    (gone : v ∉ s'.store.recorded) : s'.store.Tidy := by
  obtain ⟨table, files⟩ := removes.leaving tidy mem gone
  refine Store.tidy_congr (tidy.without v) table fun g => ?_
  rw [Store.pathAt, Store.pathAt, files]

theorem Removes.lookup_other (tidy : s.store.Tidy) (removes : Removes cfg s s' v file)
    (mem : v ∈ s.store.recorded) (gone : v ∉ s'.store.recorded) (other : g ≠ v)
    (found : s.store.lookup cfg name = .ok (some g)) : s'.store.lookup cfg name = .ok (some g) := by
  obtain ⟨table, files⟩ := removes.leaving tidy mem gone
  have same : s'.store.lookup cfg name = (s.store.without v).lookup cfg name :=
    Store.lookup_paths table (fun g => by rw [files]) name
  rw [same]
  exact (tidy.without v).leads_iff.mp (Store.leads_without_ne (tidy.leads_iff.mpr found) other)

theorem Removes.listing (removes : Removes cfg s s' v file) (mem : v ∈ s.store.recorded)
    (gone : v ∉ s'.store.recorded)
    (listed : ∀ g, g ≠ v → s.store.Listed cfg g → s'.store.Listed cfg g)
    (listing : Listing cfg but s.store) : Listing cfg but s'.store := by
  obtain ⟨table, files⟩ := removes.leaving listing.tidy mem gone
  have recorded : s'.store.recorded = (s.store.without v).recorded :=
    congrArg (fun table => table.flatten.map HashEntry.data) table
  have old {g : FileId} (mem : g ∈ s'.store.recorded) : g ∈ s.store.recorded ∧ g ≠ v := by
    rw [recorded, Store.recorded_without] at mem
    simpa using mem
  have same {g : FileId} (other : g ≠ v) : s'.store.files g = s.store.files g := by
    rw [files]
    exact Function.update_of_ne other ..
  refine ⟨removes.tidy listing.tidy mem gone, fun g mem notBut holds => ?_⟩
  obtain ⟨before, other⟩ := old mem
  rw [Store.holdsPages, same other] at holds
  exact listed g other (listing.listed g before notBut holds)

theorem Evicts.listed (tidy : s.store.Tidy) (evicts : Evicts cfg path s s' v file)
    (leaves : Leaves f v s.store s'.store) (other : g ≠ v) (listed : s.store.Listed cfg g) :
    s'.store.Listed cfg g := by
  obtain ⟨i, name, below, cell, found⟩ := listed
  obtain ⟨below', cell'⟩ := FileStack.getTop_others evicts.chosen below cell found other
  exact ⟨i, name, below', cell', evicts.lookup_other tidy
    (leaves.perm.mem_iff.mpr List.mem_cons_self) leaves.gone other found⟩

theorem Evicts.retains (evicts : Evicts cfg path s s' v file) (leaves : Leaves f v s.store s'.store)
    (listing : Listing cfg (some f) s.store) : Retains cfg f s.store s'.store := by
  have mem : v ∈ s.store.recorded := leaves.perm.mem_iff.mpr List.mem_cons_self
  have others (g : FileId) (other : g ≠ v) : s.store.Listed cfg g → s'.store.Listed cfg g :=
    evicts.listed listing.tidy leaves other
  exact ⟨evicts.toRemoves.listing mem leaves.gone others listing,
    congrArg (Option.map MemFile.abspath) (evicts.toRemoves.files (Ne.symm leaves.other)),
    others f (Ne.symm leaves.other),
    fun name => evicts.lookup_other listing.tidy mem leaves.gone (Ne.symm leaves.other)⟩

/-! ## Steps that leave the names alone -/

namespace SameNames

theorem refl (σ : Store) : SameNames σ σ := ⟨rfl, rfl, fun _ => rfl⟩

theorem trans {σ₁ : Store} (first : SameNames σ σ₁) (second : SameNames σ₁ σ') : SameNames σ σ' :=
  ⟨second.fstack.trans first.fstack, second.table.trans first.table,
    fun g => (second.paths g).trans (first.paths g)⟩

theorem lookup (same : SameNames σ σ') (name : Path) : σ'.lookup cfg name = σ.lookup cfg name :=
  Store.lookup_paths same.table same.paths name

theorem recorded (same : SameNames σ σ') : σ'.recorded = σ.recorded := by
  unfold Store.recorded
  rw [same.table]

theorem listed (same : SameNames σ σ') (listed : σ.Listed cfg g) : σ'.Listed cfg g := by
  obtain ⟨i, name, below, cell, found⟩ := listed
  exact ⟨i, name, by rw [same.fstack]; exact below, by rw [same.fstack]; exact cell,
    (same.lookup name).trans found⟩

theorem listing (same : SameNames σ σ')
    (holds : ∀ g, some g ≠ but → σ'.holdsPages g = true → σ.holdsPages g = true)
    (listing : Listing cfg but σ) : Listing cfg but σ' := by
  refine ⟨Store.tidy_congr listing.tidy same.table same.paths, fun g mem notBut filled => ?_⟩
  rw [same.recorded] at mem
  exact same.listed (listing.listed g mem notBut (holds g notBut filled))

theorem retains (same : SameNames σ σ')
    (holds : ∀ g, some g ≠ some f → σ'.holdsPages g = true → σ.holdsPages g = true)
    (listing : Listing cfg (some f) σ) : Retains cfg f σ σ' :=
  ⟨same.listing holds listing, same.paths f, same.listed, fun name found => (same.lookup name).trans found⟩

theorem setFile {file' : MemFile} (found : t.store.files f = some file)
    (abspath : file'.abspath = file.abspath) : SameNames t.store (t.setFile f (some file')).store := by
  refine ⟨rfl, rfl, fun g => ?_⟩
  by_cases here : g = f
  · subst here
    have found' : (t.setFile g (some file')).store.files g = some file' := Function.update_self ..
    rw [Store.pathAt_of found', Store.pathAt_of found, abspath]
  · exact congrArg (Option.map MemFile.abspath) (Function.update_of_ne here ..)

end SameNames

namespace Retains

theorem refl (listing : Listing cfg (some f) σ) : Retains cfg f σ σ :=
  ⟨listing, rfl, id, fun _ => id⟩

theorem trans {σ₁ : Store} (first : Retains cfg f σ σ₁) (second : Retains cfg f σ₁ σ') : Retains cfg f σ σ' :=
  ⟨second.listing, second.path.trans first.path, fun listed => second.listed (first.listed listed),
    fun name found => second.found name (first.found name found)⟩

theorem setFile (field : FieldWrite) (found : t.store.files f = some file)
    (listing : Listing cfg (some f) t.store) :
    Retains cfg f t.store (t.setFile f (some (file.write field))).store := by
  refine (SameNames.setFile found (MemFile.write_abspath file field)).retains (fun g other holds => ?_) listing
  have apart : g ≠ f := fun same => other (congrArg some same)
  rwa [Store.holdsPages_congr (congrArg _ (Function.update_of_ne apart ..))] at holds

end Retains

theorem PageStep.retains (step : PageStep cfg admits f t t') (listing : Listing cfg (some f) t.store) :
    Retains cfg f t.store t'.store := by
  cases step with
  | evict exhausted found evicts leaves freed =>
      have gone := evicts.retains leaves listing
      exact gone.trans (SameNames.retains ⟨rfl, rfl, fun _ => rfl⟩ (fun _ _ holds => holds) gone.listing)
  | take list => exact SameNames.retains ⟨rfl, rfl, fun _ => rfl⟩ (fun _ _ holds => holds) listing
  | give field found => exact .setFile field found listing

theorem retains_of_steps (steps : Relation.ReflTransGen (PageStep cfg admits f) t t')
    (listing : Listing cfg (some f) t.store) : Retains cfg f t.store t'.store := by
  induction steps with
  | refl => exact .refl listing
  | tail before step ih => exact ih.trans (step.retains ih.listing)

theorem CountStep.retains (counted : CountStep cfg admits f t t') (listing : Listing cfg (some f) t.store) :
    Retains cfg f t.store t'.store := by
  cases counted with
  | increased room => exact SameNames.retains ⟨rfl, rfl, fun _ => rfl⟩ (fun _ _ holds => holds) listing
  | evicted full evicts leaves freed => exact evicts.retains leaves listing
  | uncounted full empty admitted => exact .refl listing

/-! ## Plain programs -/

theorem exec_plain {o : Op} {x : o.Resp} (plain : o.plain = true)
    (step : Server.exec cfg w o t = .ok (x, t')) : SameNames t.store t'.store := by
  have neutral := Op.neutral_of_plain plain
  have fstack : t'.store.fstack = t.store.fstack := by
    rcases exec_flat (Op.flat_of_plain plain) step with same | ⟨str, path, f, rfl, -⟩
    · exact same
    · cases neutral
  have quiet (quiet : o.quiet = true) : SameNames t.store t'.store := by
    have same := exec_quiet quiet step
    exact ⟨fstack, same.table, fun g => by rw [Store.pathAt, Store.pathAt, same.files]⟩
  cases o with
  | pageTake | stackGetTop path => cases neutral
  | lock m =>
      obtain ⟨-, -, rfl⟩ := exec_lock step
      exact .refl _
  | unlock m =>
      cases exec_unlock step
      exact .refl _
  | store f field =>
      obtain ⟨file, found, rfl⟩ := exec_store step
      exact .setFile found (MemFile.write_abspath file field)
  | _ => exact quiet neutral

theorem passes_plain {p : Handler α} (plain : p.All (·.plain = true)) (t : Server W) :
    Passes admits cfg w s p (fun _ t' => SameNames t.store t'.store ∧ Settles t.store t'.store) t := by
  induction p generalizing t with
  | ret a => exact ⟨.refl _, .refl _⟩
  | op o next ih =>
      have neutral := Op.neutral_of_plain plain.1
      refine ⟨.calm (Op.calm_of_neutral neutral), fun x t₁ step => ?_⟩
      have first := exec_plain plain.1 step.2
      have settles := exec_neutral neutral step.2
      exact wp_mono (ih x (plain.2 x) t₁) fun _ t' rest =>
        ⟨first.trans rest.1, settles.trans rest.2⟩

theorem Settles.holds (settles : Settles σ σ') (g : FileId) : σ'.holdsPages g = σ.holdsPages g :=
  Store.holdsPages_congr (settles.pagesN g)

/-! ## Writes and appends -/

theorem Listing.push {stack : FileStack} (listing : Listing cfg (some f) σ)
    (found : σ.lookup cfg name = .ok (some f))
    (pushed : σ.fstack.push name = .ok stack) : Listing cfg none { σ with fstack := stack } := by
  unfold FileStack.push at pushed
  split at pushed
  · rename_i room
    cases pushed
    have leads {other : Path} {g : FileId} (found : σ.lookup cfg other = .ok (some g)) (stack : FileStack) :
        ({ σ with fstack := stack } : Store).lookup cfg other = .ok (some g) := by
      have table : ({ σ with fstack := stack } : Store).table = σ.table := rfl
      rw [← found]
      exact Store.lookup_paths table (fun _ => rfl) other
    refine ⟨Store.tidy_congr listing.tidy rfl fun _ => rfl, fun g mem _ holds => ?_⟩
    by_cases here : g = f
    · subst here
      exact ⟨σ.fstack.top, name, Nat.lt_succ_self _, List.getElem?_set_self room, leads found _⟩
    · obtain ⟨i, other, below, cell, found'⟩ := listing.listed g mem (by simpa using here) holds
      have apart : σ.fstack.top ≠ i := Nat.ne_of_gt below
      exact ⟨i, other, Nat.lt_succ_of_lt below, (List.getElem?_set_ne apart).trans cell, leads found' _⟩
  · cases pushed

theorem Listing.weaken (listing : Listing cfg none σ) : Listing cfg but σ :=
  ⟨listing.tidy, fun g mem _ => listing.listed g mem (by simp)⟩

theorem passes_writeListed (fd fileSize : Nat) (data : List UInt8) (listing : Listing cfg (some f) t.store)
    (here : t.store.pathAt f = some name) (found : t.store.lookup cfg name = .ok (some f)) :
    Passes admits cfg w s (do
      let pagesN := (← load f).pagesN
      let rest ← writePages cfg f (pagesN - 1) 0 (data.take fileSize)
      let _ ← addPageToMem cfg rest f (pagesN - 1 : Nat) (lastPageSize cfg fileSize) 0
      fileStackAdd (.abspath f)
      unlock (.file f)
      writeNB fd (.int 0)) (fun _ t' => Listing cfg none t'.store) t := by
  rw [passes_bind]
  refine wp_mono (passes_plain (plain_call rfl) t) ?_
  rintro file t₁ ⟨same₁, settles₁⟩
  rw [passes_bind]
  refine wp_mono (passes_plain (plain_writePages ..) t₁) ?_
  rintro rest t₂ ⟨same₂, settles₂⟩
  rw [passes_bind]
  refine wp_mono (passes_plain (plain_addPageToMem ..) t₂) ?_
  rintro _ t₃ ⟨same₃, settles₃⟩
  have same := (same₁.trans same₂).trans same₃
  have settles := (settles₁.trans settles₂).trans settles₃
  have listing₃ := same.listing (fun g _ => by simp [settles.holds g]) listing
  rw [passes_bind]
  refine wp_mono ((ends_fileStackAdd_read (.abspath f)).passes
    ((neutral_of_tidy (tidy_fileStackAdd _)).mono fun _ => Op.calm_of_neutral)) ?_
  rintro _ t₄ ⟨pushed, stack, read, push, rfl⟩
  obtain ⟨file, found', abspath⟩ := Server.onFile_eq_ok.mp read
  have named : name = pushed := by
    have here' := (same.paths f).trans here
    rw [Store.pathAt_of found'] at here'
    cases abspath
    exact (Option.some.inj here').symm
  subst named
  have listing₄ := listing₃.push ((same.lookup name).trans found) push
  have tail : (do unlock (.file f); writeNB fd (.int 0) : Handler Unit).All (·.plain = true) :=
    (plain_call rfl).bind fun _ => plain_call rfl
  refine wp_mono (passes_plain tail (t₃.setStack stack)) ?_
  rintro _ t₅ ⟨same₅, settles₅⟩
  exact same₅.listing (fun g _ => by simp [settles₅.holds g]) listing₄

theorem passes_writeAccepted_listing (fuel fd fileSize : Nat) (data : List UInt8) (midway : Midway cfg w s f t)
    (same : t.store = s.store) (consistent : Consistent cfg none [] t.store) (found : t.store.files f = some file)
    (empty : file.pagesN = 0) (listing : Listing cfg (some f) t.store)
    (searched : t.store.lookup cfg file.abspath = .ok (some f)) :
    Passes admits cfg w s (writeAccepted cfg fuel fd f fileSize data)
      (fun _ t' => Listing cfg none t'.store) t := by
  have only : ∀ g, some f = some g → g = f := fun g same => (Option.some.inj same).symm
  have noPages : file.pages = [] := by
    have filled := (consistent.shaped f file midway.recorded found nofun).filled
    exact List.length_eq_zero_iff.mp (filled.trans empty)
  unfold writeAccepted
  rw [passes_bind]
  refine (ends_store.mpr fun file₀ here => ?_).passes (calm_store ..)
  cases Option.some.inj (here.symm.trans found)
  have retains₁ : Retains cfg f t.store (t.setFile f (some (file.write (.size fileSize)))).store :=
    .setFile (.size fileSize) found listing
  have consistent₁ : Consistent cfg (some f) []
      (t.setFile f (some (file.write (.size fileSize)))).store :=
    consistent.setFile midway.recorded found rfl (.refl _) nofun
  have midway₁ := (Stretch.give admits midway consistent₁ found).1
  have held : ∀ g, some f = some g →
      (t.setFile f (some (file.write (.size fileSize)))).owner (.file g) ≠ none := by
    intro g same
    rw [only g same, midway₁.held]
    nofun
  rw [passes_bind]
  have settles : Settles s.store (t.setFile f (some (file.write (.size fileSize)))).store := by
    rw [← same]
    exact .setFile found rfl
  refine wp_mono ((passes_fileNUpdate midway₁ settles consistent₁ only).ends
    (ends_fileNUpdate cfg.fileMax consistent₁ held)) ?_
  rintro _ u ⟨counted, consistent₂, shrinks₂⟩
  have midway₂ := midway₁.moves (shrinks₂.weaken _) consistent₂ only
  have found₂ := (shrinks₂.files f midway₂.recorded nofun).trans (Function.update_self ..)
  have retains₂ := retains₁.trans (counted.retains retains₁.listing)
  rw [passes_bind]
  refine wp_mono (passes_filePagesInitialize fuel midway₂ consistent₂ found₂ noPages) ?_
  intro _ u₁ stretch
  have retains₃ := retains₂.trans (retains_of_steps stretch.steps retains₂.listing)
  exact passes_writeListed fd fileSize data retains₃.listing
    (retains₃.path.trans (Store.pathAt_of found)) (retains₃.found _ searched)

theorem passes_appendAccepted_listing (fuel fd n : Nat) (data : List UInt8) (midway : Midway cfg w s f t)
    (consistent : Consistent cfg none [] t.store) (listing : Listing cfg (some f) t.store)
    (listed : t.store.Listed cfg f) :
    Passes admits cfg w s (appendAccepted cfg fuel fd f file n data)
      (fun _ t' => Listing cfg none t'.store) t := by
  unfold appendAccepted
  dsimp only
  rw [passes_bind]
  refine wp_mono (passes_filePagesRenew fuel _ midway consistent) fun _ u steps => ?_
  have retains := retains_of_steps steps listing
  have tail (avail overflow : Int) :
      (appendRest cfg fd f file n avail overflow data).All (·.plain = true) :=
    (plain_appendData ..).bind fun _ => (plain_call rfl).bind fun _ =>
      (plain_call rfl).bind fun _ => plain_call rfl
  refine wp_mono (passes_plain (tail _ _) u) ?_
  rintro _ t' ⟨same, settles⟩
  refine same.listing (fun g _ => by simp [settles.holds g]) ⟨retains.listing.tidy, fun g mem _ holds => ?_⟩
  by_cases here : g = f
  · subst here
    exact retains.listed listed
  · exact retains.listing.listed g mem (by simpa using here) holds

/-! ## Requests -/

theorem UniqueNames.mem_liveNames (unique : UniqueNames cfg σ) (cell : some name ∈ σ.fstack.stack)
    (found : σ.lookup cfg name = .ok (some g)) : name ∈ σ.liveNames cfg := by
  obtain ⟨mem, here⟩ := unique.lookup_iff.mp found
  have short := unique.short g mem name here
  have listed : name ∈ σ.fstack.stack.filterMap id := List.mem_filterMap.mpr ⟨_, cell, rfl⟩
  refine List.mem_filter.mpr ⟨?_, Store.knows_iff.mpr ⟨g, found⟩⟩
  obtain ⟨kept, mem', same⟩ := exists_mem_eraseDupsBy strncmpEq listed
  rcases same with rfl | same
  · exact mem'
  · rw [strncmpEq_comm] at same
    rwa [← eq_of_strncmpEq same short]

theorem Listing.compacted (listing : Listing cfg none s.store) (unique : UniqueNames cfg s.store) :
    Listing cfg none (s.setStack (s.store.fstack.holding (s.store.liveNames cfg))).store := by
  refine ⟨Store.tidy_congr listing.tidy rfl fun _ => rfl, fun g mem notBut holds => ?_⟩
  obtain ⟨i, name, -, cell, found⟩ := listing.listed g mem notBut holds
  have live := unique.mem_liveNames (List.mem_of_getElem? cell) found
  obtain ⟨j, inside, here⟩ := List.mem_iff_getElem.mp live
  refine ⟨j, name, inside, ?_, by simpa using found⟩
  show (_ ++ _ : List (Option Path))[j]? = _
  rw [List.getElem?_append_left (by simpa using inside), List.getElem?_map, List.getElem?_eq_getElem inside, here]
  rfl

theorem Listing.write {pid : Pid} {n : Nat} {data : List UInt8} {path : Path} (listing : Listing cfg none s.store)
    (unique : UniqueNames cfg s.store) (idle : Idle cfg s)
    (completed : (server W cfg).run w (fileWrite cfg fuel fd path pid n data) s = .ok ((), s')) :
    Listing cfg none s'.store := by
  rcases idle.lookup path with missing | ⟨f, file, searched, mem, found⟩
  · cases (idle.run_fileWrite_missing w fuel fd pid n data missing).symm.trans completed
  · by_cases refused : writeError cfg file pid n ≠ 0
    · cases (idle.run_fileWrite_refused w fuel fd pid n data searched found refused).symm.trans completed
      exact listing
    · obtain ⟨-, empty, -⟩ := writeError_eq_zero.mp (not_not.mp refused)
      rw [idle.run_fileWrite_checked w fuel fd pid n data searched found, if_neg refused] at completed
      have named : s.store.lookup cfg file.abspath = .ok (some f) :=
        unique.lookup_iff.mpr ⟨mem, Store.pathAt_of found⟩
      have midway := idle.midway (w := w) mem fd (.int (writeError cfg file pid n))
      have passes : Passes (fun _ _ => True) cfg w s (writeAccepted cfg fuel fd f n data) _ _ :=
        passes_writeAccepted_listing fuel fd n data midway rfl idle.consistent found empty listing.weaken named
      exact Machine.run_of_along passes (fun _ _ _ => trivial) completed

theorem Listing.append {pid : Pid} {n : Nat} {data : List UInt8} {path : Path} (listing : Listing cfg none s.store)
    (idle : Idle cfg s) (length : data.length = n) (wellFormed : n < 2 ^ 64)
    (completed : (server W cfg).run w (fileAppend cfg fuel fd path pid n data) s = .ok ((), s')) :
    Listing cfg none s'.store := by
  rcases idle.lookup path with missing | ⟨f, file, searched, mem, found⟩
  · cases (idle.run_fileAppend_missing w fuel fd pid n data missing).symm.trans completed
  · by_cases refused : appendError cfg file pid n ≠ 0
    · cases (idle.run_fileAppend_refused w fuel fd pid n data searched found refused).symm.trans completed
      exact listing
    · obtain ⟨checked, -⟩ := appendError_eq_zero.mp (not_not.mp refused)
      rw [idle.run_fileAppend_checked w fuel fd pid n data searched found, if_neg refused] at completed
      have shaped := idle.consistent.shaped f file mem found nofun
      rcases appendSize_fits shaped wellFormed checked with fits | large
      · have ends : Ends False cfg w (appendAccepted cfg fuel fd f file n data) _
            ((s.setOwner (.file f) (some w)).send fd (.int (appendError cfg file pid n))) :=
          ends_appendAccepted fuel fd idle mem found fits length nofun
        obtain ⟨hasPages, -⟩ := ends.run completed
        have listed := listing.listed f mem (by simp)
          ((Store.holdsPages_of found).mpr (Nat.ne_of_gt hasPages))
        have midway := idle.midway (w := w) mem fd (.int (appendError cfg file pid n))
        have passes : Passes (fun _ _ => True) cfg w s (appendAccepted cfg fuel fd f file n data) _ _ :=
          passes_appendAccepted_listing fuel fd n data midway idle.consistent listing.weaken listed
        exact Machine.run_of_along passes (fun _ _ _ => trivial) completed
      · have fails : Ends False cfg w (appendAccepted cfg fuel fd f file n data) (fun _ _ => False)
            ((s.setOwner (.file f) (some w)).send fd (.int (appendError cfg file pid n))) :=
          ends_appendAccepted_large fuel fd n data large
        exact (fails.run completed).elim

theorem Listing.delete {pid : Pid} {path : Path} (listing : Listing cfg none s.store) (idle : Idle cfg s)
    (completed : (server W cfg).run w (fileDelete fd path pid) s = .ok ((), s')) :
    Listing cfg none s'.store := by
  rcases idle.lookup path with missing | ⟨f, file, searched, mem, found⟩
  · cases (idle.run_fileDelete_missing w fd pid missing).symm.trans completed
    exact listing
  · by_cases accepted : openError file pid = 0
    · obtain ⟨t, ran, -, removes, fstack⟩ := idle.run_fileDelete_accepted w fd searched found accepted
      cases ran.symm.trans completed
      have gone := removes.victim_nmem idle.consistent
      have tidy : (s.send fd (.int 0)).store.Tidy := listing.tidy
      refine removes.listing mem gone (fun g other listed => ?_) listing
      obtain ⟨i, name, below, cell, leads⟩ := listed
      exact ⟨i, name, by rw [fstack]; exact below, by rw [fstack]; exact cell,
        removes.lookup_other tidy mem gone other leads⟩
    · cases (idle.run_fileDelete_refused w fd pid searched found accepted).symm.trans completed
      exact listing

theorem Listing.create {path : Path} (listing : Listing cfg none σ) (unique : UniqueNames cfg σ)
    (unique' : UniqueNames cfg (σ.create cfg path)) : Listing cfg none (σ.create cfg path) := by
  refine ⟨unique'.consistent.tidy, fun g mem notBut holds => ?_⟩
  rcases List.mem_cons.mp ((unique.consistent.recorded_create path).mem_iff.mp mem) with rfl | before
  · have new : (σ.create cfg path).files σ.next = some ⟨[], 0, path, 0, []⟩ := Function.update_self ..
    simp [Store.holdsPages, new] at holds
  · have other := unique.consistent.ne_next before
    rw [Store.holdsPages_congr (congrArg _ (Function.update_of_ne other ..))] at holds
    obtain ⟨i, name, below, cell, found⟩ := listing.listed g before notBut holds
    refine ⟨i, name, below, cell, unique'.lookup_iff.mpr ⟨mem, ?_⟩⟩
    rw [pathAt_create path other]
    exact (unique.lookup_iff.mp found).2

theorem Listing.request {r : Request} (listing : Listing cfg none s.store) (unique : UniqueNames cfg s.store)
    (idle : Idle cfg s) (bounded : s.store.fstack.Bounded cfg) (wellFormed : r.WellFormed)
    (once : CreatesOnce cfg s.store r)
    (completed : (server W cfg).run w (handle cfg fuel fd r) s = .ok ((), s')) :
    Listing cfg none s'.store := by
  have plain {p : Handler Unit} (all : p.All (·.plain = true))
      (ran : (server W cfg).run w p s = .ok ((), s')) : Listing cfg none s'.store := by
    have passes : Passes (fun _ _ => True) cfg w s p _ s := passes_plain all s
    obtain ⟨same, settles⟩ := Machine.run_of_along passes (fun _ _ _ => trivial) ran
    exact same.listing (fun g _ => by simp [settles.holds g]) listing
  cases r with
  | fileRead path pid => exact plain (plain_fileRead fd path pid) completed
  | fileNRead fileNum rand =>
      obtain ⟨msgs, rfl⟩ := idle.fileNRead_holding bounded completed
      exact listing.compacted unique
  | fileWrite path pid n data => exact listing.write unique idle completed
  | fileAppend path pid n data => exact listing.append idle wellFormed.1 wellFormed.2 completed
  | fileOpen path pid => exact plain (plain_of_still (still_fileOpen fd path pid)) completed
  | fileClose path pid => exact plain (plain_of_still (still_fileClose fd path pid)) completed
  | fileDelete path pid => exact listing.delete idle completed
  | fileLock | fileUnlock =>
      cases completed
      exact listing
  | fileSearch path =>
      exact plain (plain_of_still ((still_fileSearch fd path).bind fun _ => all_pure _)) completed
  | fileInit path =>
      have unique' := unique.request idle wellFormed once completed
      cases (idle.run_fileInit w fd path).symm.trans completed
      exact listing.create unique unique'

theorem listing_initial (W : Type) (cfg : Config) : Listing cfg none (Server.initial W cfg).store := by
  refine ⟨(idle_initial W cfg).consistent.tidy, fun g mem => ?_⟩
  change g ∈ (memorySetup cfg).recorded at mem
  rw [recorded_memorySetup cfg] at mem
  cases mem

theorem listing_of_served (served : Served W cfg (CreatesOnce cfg) s) :
    UniqueNames cfg s.store ∧ Listing cfg none s.store := by
  induction served with
  | initial => exact ⟨uniqueNames_initial W cfg, listing_initial W cfg⟩
  | request before wellFormed once completed ih =>
      obtain ⟨unique, listing⟩ := ih
      have idle := before.anyhow.idle
      exact ⟨unique.request idle wellFormed once completed,
        listing.request unique idle before.anyhow.bounded wellFormed once completed⟩

/-- Every file that holds pages has its own name below the top of the stack. -/
theorem files_listed (served : Served W cfg (CreatesOnce cfg) s) (mem : f ∈ s.store.recorded)
    (found : s.store.files f = some file) (hasPages : file.pagesN ≠ 0) :
    ∃ i, i < s.store.fstack.top ∧ s.store.fstack.stack[i]? = some (some file.abspath) := by
  obtain ⟨unique, listing⟩ := listing_of_served served
  obtain ⟨i, name, below, cell, leads⟩ :=
    listing.listed f mem (by simp) ((Store.holdsPages_of found).mpr hasPages)
  have named := (unique.lookup_iff.mp leads).2
  rw [Store.pathAt_of found] at named
  cases named
  exact ⟨i, below, cell⟩

end

instance (cfg : Config) (σ : Store) (r : Request) : Decidable (CreatesOnce cfg σ r) :=
  match r with
  | .fileInit path => inferInstanceAs (Decidable (σ.lookup cfg path = .ok none ∧ path.length < posixPathMax))
  | .fileRead _ _ | .fileNRead _ _ | .fileWrite _ _ _ _ | .fileAppend _ _ _ _ | .fileOpen _ _
  | .fileClose _ _ | .fileDelete _ _ | .fileLock | .fileUnlock | .fileSearch _ =>
      inferInstanceAs (Decidable True)

theorem createsOnce_threeFiles :
    Served Unit smallConfig (CreatesOnce smallConfig) (reached smallConfig 5 threeFiles) := by
  have traced : Traced Unit smallConfig (CreatesOnce smallConfig) (fun _ _ _ _ => ()) ()
      (history (fun _ _ _ _ => ()) smallConfig 5 0 threeFiles () (Server.initial Unit smallConfig))
      (reached smallConfig 5 threeFiles) :=
    traced_reached _ (fun _ _ => of_decide_eq_true)
      (by simp [threeFiles, twoFiles, deletedFile, Request.WellFormed]) (by decide +kernel)
  exact traced.served

/-- The third file has evicted the second. -/
theorem files_listed_example : ∃ i, i < (reached smallConfig 5 threeFiles).store.fstack.top ∧
    (reached smallConfig 5 threeFiles).store.fstack.stack[i]? = some (some [99]) := by
  have found : (reached smallConfig 5 threeFiles).store.files 2 = some ⟨[2], 1, [99], 4, [7]⟩ := by
    decide +kernel
  exact files_listed createsOnce_threeFiles (by decide +kernel) found (by decide)

end FileServer
