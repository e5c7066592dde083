import FileServer.Proof.Sequential.Append
import FileServer.Proof.Sequential.Defrag
import FileServer.Proof.Sequential.Paging

/-!
# `fileNRead`

The answer to a request for any number of files, and when it is made of the files that hold pages.
-/

namespace FileServer
open Program

/-- The names on the stack that the loop of `fileNRead` looks up. -/
def Store.drawn (cfg : Config) (σ : Store) (n : Nat) (rand : Nat → Nat) : List Path :=
  let names := σ.liveNames cfg
  (shuffle rand (names.length - 1) names).take (if n = 0 then names.length else n)

def nameReplies (cfg : Config) (σ : Store) : List Path → Outcome Fault (List Msg)
  | [] => .ok []
  | name :: names => (nameReply cfg σ name).andThen fun msgs =>
      (nameReplies cfg σ names).andThen fun rest => .ok (msgs ++ rest)

/-- The messages of one file: its base name, its size and its content, of that size. -/
def Store.Presents (σ : Store) (f : FileId) (entry : List Msg) : Prop :=
  ∃ (file : MemFile) (base : Path) (chunks : List (List UInt8)), σ.files f = some file ∧
    fileShortenName file.abspath = some base ∧
    entry = .int (base.length + 1) :: .bytes (base ++ [0]) :: .sizeT file.size :: chunks.map .bytes ∧
    chunks.flatten = σ.content file ∧ chunks.flatten.length = file.size

/-- The answer is an entry for each of as many files that hold pages as there are, or as were asked for,
and the terminator. -/
def SendsWritten {W : Type} (cfg : Config) (w : W) (fd n : Nat) (rand : Nat → Nat) (s : Server W) : Prop :=
  ∃ s' fs entries, (server W cfg).run w (fileNRead cfg fd n rand) s = .ok ((), s') ∧
    s'.sent = s.sent ++ (entries.flatten ++ [.int 0]).map (fd, ·) ∧
    List.Forall₂ s.store.Presents fs entries ∧ fs.Nodup ∧
    (∀ f ∈ fs, f ∈ s.store.recorded ∧ s.store.holdsPages f = true) ∧
    fs.length = if n = 0 then s.store.filesHeld else min n s.store.filesHeld

/-- The name is whole in its copy and leads to a file with pages, as many as its size takes, and with a
part behind a slash in its path. -/
def Store.NamesWritten (cfg : Config) (σ : Store) (name : Path) : Prop :=
  name.length < posixPathMax ∧ ∃ f file, σ.lookup cfg name = .ok (some f) ∧ σ.files f = some file ∧
    file.pagesN ≠ 0 ∧ file.pagesN = pagesFor cfg file.size ∧ fileShortenName file.abspath ≠ none

/-- The names drawn are as many as the answer needs, each of a written file. -/
structure Store.ListsWritten (cfg : Config) (n : Nat) (rand : Nat → Nat) (σ : Store) : Prop where
  count : (σ.drawn cfg n rand).length = if n = 0 then σ.filesHeld else min n σ.filesHeld
  written : ∀ name ∈ σ.drawn cfg n rand, σ.NamesWritten cfg name

section
variable {W : Type} {cfg : Config} {s s' : Server W} {σ : Store} {f : FileId} {file : MemFile}
  {name : Path} {names : List Path} {rand : Nat → Nat} {n : Nat}

/-! ## The run -/

theorem run_arrayCopy (cfg : Config) (w : W) (names : List Path) (front back : List (Option Path))
    (stack : s.store.fstack.stack = front ++ names.map some ++ back) :
    (server W cfg).run w (arrayCopy names.length front.length) s = .ok (names, s) := by
  induction names generalizing front with
  | nil => simp [arrayCopy]
  | cons name names ih =>
      have here : s.store.fstack.stack[front.length]? = some (some name) := by simp [stack]
      have read : (server W cfg).run w (call (.stackCell front.length)) s = .ok (some name, s) := by
        rw [run_call]
        simp only [Server.exec, here]
      have next := ih (front ++ [some name]) (by simpa using stack)
      rw [List.length_append, List.length_singleton] at next
      rw [List.length_cons, arrayCopy, Machine.run_bind_of read]
      exact Machine.run_bind_of next _

theorem Idle.run_fileNReadStart (idle : Idle cfg s) (bounded : s.store.fstack.Bounded cfg) (w : W) (n : Int)
    (rand : Nat → Nat) (named : s.store.liveNames cfg = names) :
    (server W cfg).run w (fileNReadStart n rand) s =
      .ok ((shuffle rand (names.length - 1) names, if n = 0 then names.length else n),
        s.setStack (s.store.fstack.holding names)) := by
  have total (name : Path) : ∃ r, s.store.lookup cfg name = .ok r := by
    rcases idle.lookup name with missing | ⟨f, file, searched, -⟩
    · exact ⟨_, missing⟩
    · exact ⟨_, searched⟩
  have compacted := run_fileStackDefrag w total (idle.unlocked _) (idle.unlocked _) bounded.length
  rw [named] at compacted
  obtain ⟨t, reached⟩ : ∃ t, s.setStack (s.store.fstack.holding names) = t := ⟨_, rfl⟩
  have top : t.store.fstack.top = names.length := by
    rw [← reached]
    rfl
  have unowned : t.owner .filestack = none := by
    rw [← reached]
    exact idle.unlocked _
  have copied := run_arrayCopy cfg (s := t.setOwner .filestack (some w)) w names []
    (List.replicate (s.store.fstack.stack.length - names.length) none) (by
      rw [← reached]
      rfl)
  have read (t' : Server W) : (server W cfg).run w (call (.stackTop .null)) t' =
      .ok (t'.store.fstack.top, t') := run_call _
  rw [List.length_nil] at copied
  rw [reached] at compacted ⊢
  rw [fileNReadStart, Machine.run_bind_of compacted,
    Machine.run_bind_of (run_lock (m := .filestack) trivial unowned), Machine.run_bind_of (read _)]
  rw [Server.setOwner_store, top, arrayRandomPermutation, LawfulMonad.bind_assoc,
    Machine.run_bind_of copied, pure_bind, Machine.run_bind_of (run_unlock (m := .filestack) trivial),
    Server.setOwner_release t (some w) unowned]
  by_cases all : n = 0
  · rw [if_pos all, if_pos all, LawfulMonad.bind_assoc, Machine.run_bind_of (read t), top]
    rfl
  · rw [if_neg all, if_neg all]
    rfl

theorem Idle.run_fileNReadLoop (idle : Idle cfg s) (w : W) (fd : Nat) (names : List Path) (n i : Nat)
    (top : s.store.fstack.top = names.length) :
    (server W cfg).run w (fileNReadLoop cfg fd names n i) s =
      (nameReplies cfg s.store ((names.drop i).take n)).andThen fun msgs => .ok ((), s.sendAll fd msgs) := by
  induction n generalizing s i with
  | zero => simp [fileNReadLoop, nameReplies, Server.sendAll]
  | succ n ih =>
      by_cases inside : i < names.length
      · rw [idle.run_fileNReadLoop_succ w fd n (top ▸ inside) (List.getElem?_eq_getElem inside),
          List.drop_eq_getElem_cons inside, List.take_succ_cons, nameReplies, Outcome.andThen_assoc]
        congr 1
        funext msgs
        rw [ih ((Quiet.sendAll s fd msgs).idle idle) (i + 1) top, Outcome.andThen_assoc]
        congr 1
        funext rest
        rw [Outcome.andThen_ok, Server.sendAll_sendAll]
      · have read : (server W cfg).run w (call (.stackTop .null)) s = .ok (s.store.fstack.top, s) := rfl
        rw [fileNReadLoop, Machine.run_bind_of read, if_neg (top ▸ inside),
          List.drop_eq_nil_of_le (Nat.not_lt.mp inside)]
        simp [nameReplies, Server.sendAll]

/-! ## The order -/

theorem swap_perm {i j : Nat} (first : i < names.length) (second : j < names.length) :
    (swap names i j).Perm names := by
  have swapped : swap names i j = (names.set i names[j]).set j names[i] := by
    simp [swap, List.getD, first, second]
  rw [swapped]
  exact List.set_set_perm first second

theorem shuffle_perm (rand : Nat → Nat) (i : Nat) (inside : i ≤ names.length - 1) :
    (shuffle rand i names).Perm names := by
  induction i generalizing names with
  | zero => exact .refl names
  | succ i ih =>
      have below : rand (i + 1) % (i + 1) < i + 1 := Nat.mod_lt _ (Nat.succ_pos i)
      have swapped : (swap names (i + 1) (rand (i + 1) % (i + 1))).Perm names :=
        swap_perm (by omega) (by omega)
      have inside' : i ≤ (swap names (i + 1) (rand (i + 1) % (i + 1))).length - 1 := by
        rw [swapped.length_eq]
        omega
      exact (ih inside').trans swapped

theorem length_shuffle (rand : Nat → Nat) (names : List Path) :
    (shuffle rand (names.length - 1) names).length = names.length :=
  (shuffle_perm rand _ (Nat.le_refl _)).length_eq

theorem nameReplies_setStack (s : Server W) (stack : FileStack) (names : List Path) :
    nameReplies cfg (s.setStack stack).store names = nameReplies cfg s.store names := by
  induction names with
  | nil => rfl
  | cons name names ih =>
      rw [nameReplies, nameReplies, ih, nameReply, nameReply, Server.lookup_setStack]
      rfl

theorem toNat_asked (n count : Nat) :
    (if (n : Int) = 0 then (count : Int) else n).toNat = if n = 0 then count else n := by
  by_cases all : n = 0 <;> simp [all]

theorem Idle.run_fileNRead_asked (idle : Idle cfg s) (bounded : s.store.fstack.Bounded cfg) (w : W) (fd : Nat)
    (fileNum : Int) (rand : Nat → Nat) (named : s.store.liveNames cfg = names) :
    (server W cfg).run w (fileNRead cfg fd fileNum rand) s =
      (nameReplies cfg s.store ((shuffle rand (names.length - 1) names).take
        (if fileNum = 0 then (names.length : Int) else fileNum).toNat)).andThen fun msgs =>
          .ok ((), (s.setStack (s.store.fstack.holding names)).sendAll fd (msgs ++ [.int 0])) := by
  have started := idle.run_fileNReadStart bounded w fileNum rand named
  have idle' : Idle cfg (s.setStack (s.store.fstack.holding names)) := (Quiet.setStack s _).idle idle
  have looped := idle'.run_fileNReadLoop w fd (shuffle rand (names.length - 1) names)
    (if fileNum = 0 then (names.length : Int) else fileNum).toNat 0 (length_shuffle rand names).symm
  rw [fileNRead_split, Machine.run_bind_of started]
  dsimp only
  rw [Machine.run_bind, looped, List.drop_zero, nameReplies_setStack, Outcome.andThen_assoc]
  congr 1
  funext msgs
  rw [← Server.sendAll_sendAll]
  rfl

theorem Idle.run_fileNRead (idle : Idle cfg s) (bounded : s.store.fstack.Bounded cfg) (w : W) (fd n : Nat)
    (rand : Nat → Nat) :
    (server W cfg).run w (fileNRead cfg fd n rand) s =
      (nameReplies cfg s.store (s.store.drawn cfg n rand)).andThen fun msgs =>
        .ok ((), (s.setStack (s.store.fstack.holding (s.store.liveNames cfg))).sendAll fd
          (msgs ++ [.int 0])) := by
  rw [idle.run_fileNRead_asked bounded w fd n rand rfl, toNat_asked]
  rfl

/-! ## Written files -/

theorem Served.size_ne_zero {meets : Store → Request → Prop} (served : Served W cfg meets s)
    (mem : f ∈ s.store.recorded) (found : s.store.files f = some file) (pages : file.pagesN ≠ 0) :
    file.size ≠ 0 := by
  induction served generalizing f file with
  | initial => cases found
  | request before wellFormed met completed ih =>
      rcases (effect_of_run before.idle wellFormed completed).each f mem with ⟨old, kept, -⟩ | changed
      · rw [kept] at found
        exact ih old found pages
      · cases changed with
        | created here =>
            cases Option.some.inj (found.symm.trans here)
            exact absurd rfl pages
        | opened recorded before here | closed recorded before here =>
            have nonempty := ih recorded before
            cases Option.some.inj (found.symm.trans here)
            exact nonempty pages
        | written recorded before nonempty here =>
            cases Option.some.inj (found.symm.trans here)
            exact Nat.ne_of_gt nonempty
        | appended recorded searched before opened hasPages fits total here =>
            have nonempty := ih recorded before (Nat.ne_of_gt hasPages)
            cases Option.some.inj (found.symm.trans here)
            exact Nat.ne_of_gt (Nat.add_pos_left (Nat.pos_of_ne_zero nonempty) _)

theorem length_fileChunks_iff (consistent : Consistent cfg none [] σ) (mem : f ∈ σ.recorded)
    (found : σ.files f = some file) (nonempty : file.size ≠ 0) :
    (fileChunks cfg σ.memPtr file).flatten.length = file.size ↔ file.pagesN = pagesFor cfg file.size := by
  have shaped := consistent.shaped f file mem found nofun
  refine ⟨fun length => ?_, length_fileChunks consistent.buffers shaped.filled⟩
  have exactly := pagesFor_last cfg (Nat.pos_of_ne_zero nonempty)
  have positive := pagesFor_pos cfg (Nat.pos_of_ne_zero nonempty)
  have some : 0 < file.pagesN := by
    rcases shaped.geometry with empty | filled
    · exact absurd empty.2 nonempty
    · exact filled.1
  have whole := Nat.succ_mul (file.pagesN - 1) cfg.pageSize
  rw [Nat.succ_eq_add_one, Nat.sub_add_cancel some] at whole
  have short := lastPageSize_le cfg file.size
  rw [flatten_fileChunks consistent.buffers shaped.filled some nonempty, List.length_take,
    length_flatMap_blocks file.pages consistent.buffers, shaped.filled] at length
  have same : (file.pagesN - 1) * cfg.pageSize = (pagesFor cfg file.size - 1) * cfg.pageSize := by omega
  have one := Nat.eq_of_mul_eq_mul_right cfg.pageSize_pos same
  omega

theorem nameReply_known (short : name.length < posixPathMax) (searched : σ.lookup cfg name = .ok (some f))
    (found : σ.files f = some file) :
    nameReply cfg σ name = match fileShortenName file.abspath with
      | none => .fault .nullString
      | some base => .ok (.int (base.length + 1) :: .bytes (base ++ [0]) ::
          fileMessages cfg σ.memPtr file) := by
  rw [nameReply, if_neg (Nat.not_le.mpr short), searched, Outcome.andThen_ok]
  cases shortened : fileShortenName file.abspath <;> simp [found, shortened]

/-! ## From written names to the answer -/

theorem Store.NamesWritten.presents (consistent : Consistent cfg none [] σ)
    (written : σ.NamesWritten cfg name) : ∃ f entry, σ.lookup cfg name = .ok (some f) ∧
      nameReply cfg σ name = .ok entry ∧ σ.Presents f entry ∧ f ∈ σ.recorded ∧ σ.holdsPages f = true := by
  obtain ⟨short, f, file, searched, found, pages, counted, named⟩ := written
  obtain ⟨base, shortened⟩ := Option.ne_none_iff_exists'.mp named
  have mem := Store.hashTbSearch_mem (Store.lookup_eq_ok.mp searched)
  have reply := nameReply_known short searched found
  rw [shortened] at reply
  have nonempty : file.size ≠ 0 := by
    intro empty
    rw [counted, empty, pagesFor_zero] at pages
    exact pages rfl
  have content := fileChunks_content consistent mem found counted
  have length := (length_fileChunks_iff consistent mem found nonempty).mpr counted
  exact ⟨f, _, searched, reply, ⟨file, base, _, found, shortened, rfl, content, length⟩, mem,
    (Store.holdsPages_of found).mpr pages⟩

theorem nameReplies_written (consistent : Consistent cfg none [] σ)
    (distinct : names.Pairwise fun a b => strncmpEq a b = false)
    (written : ∀ name ∈ names, σ.NamesWritten cfg name) :
    ∃ fs entries, nameReplies cfg σ names = .ok entries.flatten ∧ List.Forall₂ σ.Presents fs entries ∧
      fs.Nodup ∧ (∀ f ∈ fs, f ∈ σ.recorded ∧ σ.holdsPages f = true) ∧ fs.length = names.length ∧
      ∀ f ∈ fs, ∃ name ∈ names, σ.lookup cfg name = .ok (some f) := by
  induction names with
  | nil => exact ⟨[], [], rfl, .nil, .nil, nofun, rfl, nofun⟩
  | cons name names ih =>
      obtain ⟨apart, distinct⟩ := List.pairwise_cons.mp distinct
      obtain ⟨fs, entries, replies, presents, nodup, held, length, named⟩ :=
        ih distinct fun other mem => written other (List.mem_cons_of_mem name mem)
      obtain ⟨f, entry, searched, reply, shows, recorded, holds⟩ :=
        (written name List.mem_cons_self).presents consistent
      have fresh : f ∉ fs := by
        intro mem
        obtain ⟨other, among, searched'⟩ := named f mem
        have same := Store.lookup_names searched searched' other
        rw [apart other among] at same
        simp [strncmpEq] at same
      refine ⟨f :: fs, entry :: entries, ?_, .cons shows presents, List.nodup_cons.mpr ⟨fresh, nodup⟩,
        ?_, congrArg (· + 1) length, ?_⟩
      · rw [nameReplies, reply, Outcome.andThen_ok, replies, Outcome.andThen_ok, List.flatten_cons]
      · exact List.forall_mem_cons.mpr ⟨⟨recorded, holds⟩, held⟩
      · refine List.forall_mem_cons.mpr ⟨⟨name, List.mem_cons_self, searched⟩, fun g mem => ?_⟩
        obtain ⟨other, among, searched'⟩ := named g mem
        exact ⟨other, List.mem_cons_of_mem name among, searched'⟩

/-! ## From the answer to written names -/

theorem chunks_unique {chunks chunks' : List (List UInt8)} {rest rest' : List Msg}
    (ends : ∀ data tail, rest ≠ .bytes data :: tail) (ends' : ∀ data tail, rest' ≠ .bytes data :: tail)
    (same : chunks.map .bytes ++ rest = chunks'.map .bytes ++ rest') : chunks = chunks' ∧ rest = rest' := by
  induction chunks generalizing chunks' with
  | nil =>
      cases chunks' with
      | nil => exact ⟨rfl, same⟩
      | cons chunk chunks' => exact absurd same (ends chunk _)
  | cons chunk chunks ih =>
      cases chunks' with
      | nil => exact absurd same.symm (ends' chunk _)
      | cons chunk' chunks' =>
          rw [List.map_cons, List.map_cons, List.cons_append, List.cons_append] at same
          obtain ⟨here, behind⟩ := List.cons.inj same
          obtain ⟨rfl, tails⟩ := ih behind
          cases here
          exact ⟨rfl, tails⟩

theorem flatten_presents {fs : List FileId} {entries : List (List Msg)}
    (presents : List.Forall₂ σ.Presents fs entries) (data : List UInt8) (tail : List Msg) :
    entries.flatten ≠ .bytes data :: tail := by
  cases presents with
  | nil => nofun
  | cons shows presents =>
      obtain ⟨file, base, chunks, -, -, rfl, -⟩ := shows
      nofun

theorem nameReplies_known {msgs : List Msg} (consistent : Consistent cfg none [] σ)
    (known : ∀ name ∈ names, ∃ f, σ.lookup cfg name = .ok (some f))
    (replies : nameReplies cfg σ names = .ok msgs) (data : List UInt8) (tail : List Msg) :
    msgs ≠ .bytes data :: tail := by
  cases names with
  | nil =>
      cases replies
      nofun
  | cons name names =>
      obtain ⟨entry, reply, replies⟩ := Outcome.andThen_eq_ok.mp replies
      obtain ⟨rest, -, same⟩ := Outcome.andThen_eq_ok.mp replies
      obtain ⟨f, searched⟩ := known name List.mem_cons_self
      obtain ⟨file, found⟩ := consistent.alive (Store.hashTbSearch_mem (Store.lookup_eq_ok.mp searched))
      rw [nameReply_known (short_of_reply reply) searched found] at reply
      cases shortened : fileShortenName file.abspath with
      | none =>
          rw [shortened] at reply
          cases reply
      | some base =>
          rw [shortened] at reply
          cases reply
          cases same
          nofun

theorem namesWritten_of_replies {fs : List FileId} {entries : List (List Msg)}
    (consistent : Consistent cfg none [] σ)
    (known : ∀ name ∈ names, ∃ f, σ.lookup cfg name = .ok (some f))
    (replies : nameReplies cfg σ names = .ok entries.flatten)
    (presents : List.Forall₂ σ.Presents fs entries)
    (held : ∀ f ∈ fs, ∀ file, σ.files f = some file → file.size ≠ 0) :
    names.length = fs.length ∧ ∀ name ∈ names, σ.NamesWritten cfg name := by
  induction names generalizing fs entries with
  | nil =>
      cases presents with
      | nil => exact ⟨rfl, nofun⟩
      | cons shows presents =>
          obtain ⟨file, base, chunks, -, -, rfl, -⟩ := shows
          cases replies
  | cons name names ih =>
      obtain ⟨entry, reply, joined⟩ := Outcome.andThen_eq_ok.mp replies
      have short := short_of_reply reply
      obtain ⟨rest, replied, same⟩ := Outcome.andThen_eq_ok.mp joined
      obtain ⟨f, searched⟩ := known name List.mem_cons_self
      have mem := Store.hashTbSearch_mem (Store.lookup_eq_ok.mp searched)
      obtain ⟨file, found⟩ := consistent.alive mem
      have known' : ∀ other ∈ names, ∃ f, σ.lookup cfg other = .ok (some f) := fun other among =>
        known other (List.mem_cons_of_mem name among)
      rw [nameReply_known (short_of_reply reply) searched found] at reply
      cases shortened : fileShortenName file.abspath with
      | none =>
          rw [shortened] at reply
          cases reply
      | some base =>
          rw [shortened] at reply
          cases reply
          replace same := Outcome.ok.inj same
          cases presents with
          | nil => cases same
          | @cons g entry' fs entries shows presents =>
              obtain ⟨file', base', chunks', found', -, rfl, -, length'⟩ := shows
              simp only [fileMessages, List.flatten_cons, List.cons_append, List.cons.injEq,
                Msg.sizeT.injEq] at same
              obtain ⟨-, -, size, same⟩ := same
              obtain ⟨rfl, rfl⟩ := chunks_unique (nameReplies_known consistent known' replied)
                (flatten_presents presents) same
              have nonempty : file.size ≠ 0 := size ▸ held g List.mem_cons_self file' found'
              have counted := (length_fileChunks_iff consistent mem found nonempty).mp (length'.trans size.symm)
              have pages : file.pagesN ≠ 0 := by
                rw [counted]
                exact Nat.ne_of_gt (pagesFor_pos cfg (Nat.pos_of_ne_zero nonempty))
              obtain ⟨length, written⟩ := ih known' replied presents fun g mem =>
                held g (List.mem_cons_of_mem _ mem)
              refine ⟨congrArg (· + 1) length, List.forall_mem_cons.mpr ⟨?_, written⟩⟩
              exact ⟨short, f, file, searched, found, pages, counted, by simp [shortened]⟩

/-! ## Exactly when the answer is right -/

theorem drawn_mem (mem : name ∈ σ.drawn cfg n rand) : name ∈ σ.liveNames cfg :=
  (shuffle_perm rand _ (Nat.le_refl _)).subset (List.mem_of_mem_take mem)

theorem drawn_distinct (σ : Store) (n : Nat) (rand : Nat → Nat) :
    (σ.drawn cfg n rand).Pairwise fun a b => strncmpEq a b = false := by
  have symmetric {a b : Path} (apart : strncmpEq a b = false) : strncmpEq b a = false := by
    rw [strncmpEq_comm]
    exact apart
  exact ((shuffle_perm rand _ (Nat.le_refl _)).symm.pairwise (liveNames_distinct σ) symmetric).sublist
    (List.take_sublist ..)

/-- `fileNRead` answers with the files that hold pages exactly if the stack names them and no others where
it is read. -/
theorem sends_written (served : Served W cfg (fun _ _ => True) s) (w : W) (fd n : Nat) (rand : Nat → Nat) :
    SendsWritten cfg w fd n rand s ↔ s.store.ListsWritten cfg n rand := by
  have consistent := served.idle.consistent
  have ran := served.idle.run_fileNRead served.bounded w fd n rand
  have sent (msgs : List Msg) : ((s.setStack (s.store.fstack.holding (s.store.liveNames cfg))).sendAll fd
      msgs).sent = s.sent ++ msgs.map (fd, ·) := rfl
  constructor
  · rintro ⟨s', fs, entries, completed, answered, presents, nodup, held, count⟩
    rw [completed] at ran
    obtain ⟨msgs, replies, same⟩ := Outcome.andThen_eq_ok.mp ran.symm
    cases same
    have joined := List.map_injective_iff.mpr (fun _ _ => congrArg Prod.snd)
      (List.append_cancel_left ((sent _).symm.trans answered))
    obtain rfl := List.append_cancel_right joined
    obtain ⟨length, written⟩ := namesWritten_of_replies consistent
      (fun name mem => liveNames_known (drawn_mem mem)) replies presents fun f mem file found =>
        served.size_ne_zero (held f mem).1 found ((Store.holdsPages_of found).mp (held f mem).2)
    exact ⟨length.trans count, written⟩
  · rintro ⟨count, written⟩
    obtain ⟨fs, entries, replies, presents, nodup, held, length, -⟩ :=
      nameReplies_written consistent (drawn_distinct s.store n rand) written
    rw [replies, Outcome.andThen_ok] at ran
    exact ⟨_, fs, entries, ran, sent _, presents, nodup, held, length.trans count⟩

end

/-- One file, deleted and created again, but not written again. -/
def removedAndCreated : List Request :=
  [.fileInit [47, 97], .fileOpen [47, 97] 7, .fileWrite [47, 97] 7 1 [1], .fileDelete [47, 97] 7,
    .fileInit [47, 97]]

/-- The old name on the stack leads to the new file, which is sent although it holds no pages. -/
theorem sends_unwritten :
    Served Unit smallConfig (fun _ _ => True) (reached smallConfig 5 removedAndCreated) ∧
      ¬SendsWritten smallConfig () 0 0 (fun _ => 0) (reached smallConfig 5 removedAndCreated) := by
  refine ⟨served_reached (by simp [removedAndCreated, Request.WellFormed]) (fun _ _ _ => trivial)
    (by decide +kernel), ?_⟩
  rintro ⟨s', fs, entries, ran, sent, presents, -, -, count⟩
  have unwritten : (reached smallConfig 5 removedAndCreated).store.filesHeld = 0 := by decide +kernel
  rw [unwritten] at count
  obtain rfl := List.length_eq_zero_iff.mp count
  cases presents
  have more : ((server Unit smallConfig).run () (fileNRead smallConfig 0 (0 : Nat) fun _ => 0)
      (reached smallConfig 5 removedAndCreated)).okAnd
        (fun result => result.2.sent ≠ (reached smallConfig 5 removedAndCreated).sent ++ [(0, .int 0)]) = true := by
    decide +kernel
  rw [ran] at more
  exact of_decide_eq_true more sent

theorem sends_written_example : SendsWritten smallConfig () 0 1 (fun _ => 0) (reached smallConfig 5 twoFiles) := by
  refine (sends_written (served_reached (by simp [twoFiles, deletedFile, Request.WellFormed])
    (fun _ _ _ => trivial) (by decide +kernel)) () 0 1 fun _ => 0).mpr ⟨?_, ?_⟩
  · decide +kernel
  · have drawn : (reached smallConfig 5 twoFiles).store.drawn smallConfig 1 (fun _ => 0) = [[98]] := by
      decide +kernel
    rw [drawn]
    intro name mem
    obtain rfl := List.mem_singleton.mp mem
    exact ⟨by decide, 1, ⟨[2], 1, [98], 4, [7]⟩, by decide +kernel, by decide +kernel, by decide, by decide,
      by decide +kernel⟩

end FileServer
