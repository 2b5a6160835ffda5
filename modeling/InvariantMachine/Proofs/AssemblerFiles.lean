import Mathlib
import InvariantMachine.Proofs.Parts
import InvariantMachine.Shell.Assembler

/-!
# What the assembler does to files

A run of the assembler leaves all files as they are or writes one, with all that it has to write.
Both its paths are followed over the same tree, so an output that leads to the input is noticed
whatever its spelling, and a file that is written elsewhere leaves the way to the input as it was.
Reads and writes may also fail for reasons that no tree knows of.
-/

namespace InvariantMachine

namespace FileTree

variable {tree : FileTree} {location other : Location} {bytes : List UInt8} {path : List Char}

/-- The content of the file at a location. -/
def content? (tree : FileTree) (location : Location) : Option (List UInt8) :=
  (tree.files.find? fun f => f.1 == location).map (·.2)

theorem entry?_eq (tree : FileTree) (location : Location) :
    tree.entry? location =
      match tree.content? location with
      | some bytes => some (.file bytes)
      | none => if tree.isDirectory location then some .directory else none := by
  unfold entry? content?
  cases tree.files.find? fun f => f.1 == location <;> rfl

/-- A file at a location with other bytes, and any other file as it was. -/
def overwritten (location : Location) (bytes : List UInt8) (f : Location × List UInt8) :
    Location × List UInt8 :=
  if f.1 == location then (location, bytes) else f

@[simp] theorem fst_overwritten (location : Location) (bytes : List UInt8)
    (f : Location × List UInt8) : (overwritten location bytes f).1 = f.1 := by
  unfold overwritten
  split
  · rename_i h
    exact (beq_iff_eq.mp h).symm
  · rfl

theorem files_put_of_any (h : tree.files.any fun f => f.1 == location) (bytes : List UInt8) :
    (tree.put location bytes).files = tree.files.map (overwritten location bytes) := by
  rw [put, if_pos h]
  rfl

theorem files_put_of_not_any (h : ¬tree.files.any fun f => f.1 == location) (bytes : List UInt8) :
    (tree.put location bytes).files = tree.files ++ [(location, bytes)] := by
  rw [put, if_neg h]

theorem content?_put_self (tree : FileTree) (location : Location) (bytes : List UInt8) :
    (tree.put location bytes).content? location = some bytes := by
  unfold content?
  by_cases h : tree.files.any fun f => f.1 == location
  · obtain ⟨f, hf, hlocation⟩ := List.any_eq_true.mp h
    have hsome : (tree.files.find? fun f => f.1 == location).isSome :=
      List.find?_isSome.mpr ⟨f, hf, hlocation⟩
    obtain ⟨g, hg⟩ := Option.isSome_iff_exists.mp hsome
    have hg' : g.1 == location := by simpa using List.find?_some hg
    rw [files_put_of_any h, List.find?_map]
    simp only [Function.comp_def, fst_overwritten]
    rw [hg, Option.map_some, Option.map_some, overwritten, if_pos hg']
  · have hnone : tree.files.find? (fun f => f.1 == location) = none := by
      rw [List.find?_eq_none]
      exact fun f hf hlocation => h (List.any_eq_true.mpr ⟨f, hf, hlocation⟩)
    rw [files_put_of_not_any h, List.find?_append, hnone]
    simp

theorem content?_put_of_ne (h : other ≠ location) (tree : FileTree) (bytes : List UInt8) :
    (tree.put location bytes).content? other = tree.content? other := by
  unfold content?
  by_cases hany : tree.files.any fun f => f.1 == location
  · rw [files_put_of_any hany, List.find?_map]
    simp only [Function.comp_def, fst_overwritten, Option.map_map]
    cases hfind : tree.files.find? fun f => f.1 == other with
    | none => rfl
    | some f =>
      have hf : f.1 == other := by simpa using List.find?_some hfind
      have hne : ¬(f.1 == location) := by
        rw [beq_iff_eq, beq_iff_eq.mp hf]
        exact h
      change some (overwritten location bytes f).2 = some f.2
      rw [overwritten, if_neg hne]
  · rw [files_put_of_not_any hany, List.find?_append]
    have hne : ¬(location == other) := by
      rw [beq_iff_eq]
      exact h.symm
    simp [hne]

theorem here_put (tree : FileTree) (location : Location) (bytes : List UInt8) :
    (tree.put location bytes).here = tree.here := by
  unfold put
  split <;> rfl

theorem isDirectory_put (h : tree.isDirectory other) (location : Location) (bytes : List UInt8) :
    (tree.put location bytes).isDirectory other := by
  have hdirectories : (tree.put location bytes).directories = tree.directories := by
    unfold put
    split <;> rfl
  unfold isDirectory at h ⊢
  rw [here_put, hdirectories]
  rw [Bool.or_eq_true] at h ⊢
  refine h.imp_right fun hfiles => ?_
  by_cases hany : tree.files.any fun f => f.1 == location
  · rw [files_put_of_any hany, List.any_map]
    simpa only [Function.comp_def, fst_overwritten] using hfiles
  · rw [files_put_of_not_any hany, List.any_append, hfiles]
    rfl

theorem entry?_put_of_ne {entry : Entry} (hne : other ≠ location)
    (h : tree.entry? other = some entry) (bytes : List UInt8) :
    FileTree.entry? (tree.put location bytes) other = some entry := by
  rw [entry?_eq] at h ⊢
  rw [content?_put_of_ne hne]
  cases hcontent : tree.content? other with
  | some old =>
    rw [hcontent] at h
    exact h
  | none =>
    rw [hcontent] at h
    dsimp only at h ⊢
    split at h
    · rename_i hdirectory
      rw [if_pos (isDirectory_put hdirectory location bytes)]
      exact h
    · contradiction

/-- The way to a location goes through directories, so writing a file leaves it as it was. -/
theorem walk_put (hfile : tree.entry? other ≠ some .directory) {segments : List (List Char)}
    {start : Location} (h : tree.walk start segments = .ok location) (bytes : List UInt8) :
    (tree.put other bytes).walk start segments = .ok location := by
  induction segments generalizing start with
  | nil => exact h
  | cons segment rest ih =>
    unfold walk at h ⊢
    cases hentry : tree.entry? start with
    | none =>
      rw [hentry] at h
      contradiction
    | some entry =>
      have hne : start ≠ other ∨ entry ≠ .directory := by
        by_contra hboth
        rw [not_or, not_not, not_not] at hboth
        rw [hboth.1, hboth.2] at hentry
        exact hfile hentry
      rw [hentry] at h
      cases entry with
      | file _ => contradiction
      | directory =>
        have hstart : start ≠ other := hne.resolve_right fun hne => hne rfl
        rw [entry?_put_of_ne hstart hentry]
        dsimp only at h ⊢
        split at h
        · contradiction
        · rename_i hlength
          rw [if_neg hlength]
          exact ih h

theorem read_eq_ok (path : String) :
    tree.read path = .ok bytes ↔
      ∃ location, tree.locate path.toList = .ok location ∧
        tree.content? location = some bytes := by
  unfold read
  rw [bind_eq_ok_iff]
  refine exists_congr fun location => and_congr_right fun _ => ?_
  rw [entry?_eq]
  cases tree.content? location with
  | some old => simp [pure, Except.pure]
  | none =>
    cases tree.isDirectory location <;> simp [throw, throwThe, MonadExceptOf.throw]

theorem locate_put (hfile : tree.entry? other ≠ some .directory)
    (h : tree.locate path = .ok location) (bytes : List UInt8) :
    (tree.put other bytes).locate path = .ok location := by
  unfold locate at h ⊢
  split at h
  · contradiction
  · split at h
    · contradiction
    · rename_i hempty hlength
      have horigin : (tree.put other bytes).origin path = tree.origin path := by
        rw [origin, here_put, origin]
      rw [if_neg hempty, if_neg hlength, horigin]
      exact walk_put hfile h bytes

theorem writable_eq_ok (h : tree.writable path = .ok location) :
    tree.locate path = .ok location ∧ tree.entry? location ≠ some .directory := by
  unfold writable at h
  split at h
  · contradiction
  · dsimp only at h
    obtain ⟨found, hlocate, h⟩ := bind_eq_ok_iff.mp h
    split at h
    · contradiction
    · rename_i hplain
      obtain rfl : found = location := Except.ok.inj h
      obtain ⟨hlength, hdirectory⟩ := not_or.mp hplain
      have htrimmed : (path.reverse.dropWhile (· == '/')).reverse = path := by
        have hsuffix := List.dropWhile_suffix (· == '/') (l := path.reverse)
        have hle := hsuffix.length_le
        rw [List.length_reverse] at hlength hle
        rw [hsuffix.eq_of_length (by rw [List.length_reverse]; omega), List.reverse_reverse]
      rw [htrimmed, ite_self] at hlocate
      exact ⟨hlocate, hdirectory⟩

theorem entry?_of_content? (h : tree.content? location = some bytes) :
    tree.entry? location = some (.file bytes) := by
  rw [entry?_eq, h]

theorem existing?_eq_some_iff :
    tree.existing? path = some location ↔
      tree.locate path = .ok location ∧ (tree.entry? location).isSome := by
  unfold existing?
  cases tree.locate path with
  | error fault => simp
  | ok found =>
    dsimp only
    constructor
    · intro h
      split at h
      · rename_i hthere
        obtain rfl := Option.some.inj h
        exact ⟨rfl, hthere⟩
      · contradiction
    · rintro ⟨hfound, hthere⟩
      obtain rfl := Except.ok.inj hfound
      rw [if_pos hthere]

/-- Two paths have the same parts or lead to the same location. -/
def NamesSame (tree : FileTree) (a b : String) : Prop :=
  Path.components a.toList = Path.components b.toList ∨
    ∃ location, tree.locate a.toList = .ok location ∧ tree.locate b.toList = .ok location

theorem sameFile_iff {source : String} (hread : tree.read source = .ok bytes) (output : String) :
    tree.sameFile source output ↔ tree.NamesSame source output := by
  obtain ⟨location, hlocate, hcontent⟩ := (read_eq_ok source).mp hread
  have hexisting : tree.existing? source.toList = some location := by
    rw [existing?_eq_some_iff, entry?_of_content? hcontent]
    exact ⟨hlocate, rfl⟩
  unfold sameFile NamesSame
  rw [Bool.or_eq_true, beq_iff_eq, hexisting, hlocate]
  apply or_congr_right
  constructor
  · intro h
    cases hother : tree.existing? output.toList with
    | none =>
      rw [hother] at h
      contradiction
    | some other =>
      rw [hother] at h
      exact ⟨other, congrArg Except.ok (beq_iff_eq.mp h), (existing?_eq_some_iff.mp hother).1⟩
  · rintro ⟨other, hlocation, hlocate⟩
    obtain rfl : location = other := Except.ok.inj hlocation
    have hother : tree.existing? output.toList = some location := by
      rw [existing?_eq_some_iff, entry?_of_content? hcontent]
      exact ⟨hlocate, rfl⟩
    rw [hother]
    exact beq_self_eq_true location

theorem read_put {source : String} (hread : tree.read source = .ok bytes)
    (hfile : tree.entry? other ≠ some .directory)
    (hother : tree.locate source.toList ≠ .ok other) (product : List UInt8) :
    (tree.put other product).read source = .ok bytes := by
  obtain ⟨location, hlocate, hcontent⟩ := (read_eq_ok source).mp hread
  have hne : location ≠ other := by
    rintro rfl
    exact hother hlocate
  refine (read_eq_ok source).mpr ⟨location, locate_put hfile hlocate product, ?_⟩
  rw [content?_put_of_ne hne, hcontent]

end FileTree

/-! ### Runs that may meet mishaps -/

/-- What keeps a file from being read or written besides what the tree shows, by the path that is
asked for. -/
structure Mishaps where
  reading : String → Option FileFault
  writing : String → Option FileFault

def Mishaps.absent : Mishaps := ⟨fun _ => none, fun _ => none⟩

namespace FileTree

/-- What reading a file gives where mishaps may happen. -/
def readAmid (mishaps : Mishaps) (tree : FileTree) (path : String) :
    Except FileFault (List UInt8) :=
  match mishaps.reading path with
  | some fault => .error fault
  | none => tree.read path

/-- What writing a file leads to where mishaps may happen. -/
def writeAmid (mishaps : Mishaps) (tree : FileTree) (path : String) (bytes : List UInt8) :
    Except FileFault FileTree :=
  match mishaps.writing path with
  | some fault => .error fault
  | none => tree.write path bytes

variable {mishaps : Mishaps} {tree after : FileTree} {path : String} {bytes : List UInt8}

theorem read_of_readAmid (h : tree.readAmid mishaps path = .ok bytes) :
    tree.read path = .ok bytes := by
  unfold readAmid at h
  split at h
  · contradiction
  · exact h

theorem write_of_writeAmid (h : tree.writeAmid mishaps path bytes = .ok after) :
    ∃ location, tree.writable path.toList = .ok location ∧ tree.put location bytes = after := by
  unfold writeAmid at h
  split at h
  · contradiction
  · obtain ⟨location, hwritable, hput⟩ := bind_eq_ok_iff.mp h
    exact ⟨location, hwritable, Except.ok.inj hput⟩

end FileTree

namespace FileTask

/-- Runs a task on a tree where mishaps may happen. A file that cannot be written is not touched,
and neither is any other. -/
def runAmid (mishaps : Mishaps) : FileTask → FileTree → Printed × FileTree
  | done printed, tree => (printed, tree)
  | read path next, tree => (next (tree.readAmid mishaps path)).runAmid mishaps tree
  | write path bytes next, tree =>
    match tree.writeAmid mishaps path bytes with
    | .ok tree => (next (.ok ())).runAmid mishaps tree
    | .error fault => (next (.error fault)).runAmid mishaps tree
  | sameFile a b next, tree => (next (tree.sameFile a b)).runAmid mishaps tree

theorem runAmid_absent (task : FileTask) (tree : FileTree) :
    task.runAmid .absent tree = task.runOn tree := by
  induction task generalizing tree with
  | done printed => rfl
  | read path next ih => exact ih _ _
  | write path bytes next ih =>
    rw [runAmid, runOn, FileTree.writeAmid]
    cases tree.write path bytes with
    | ok tree => exact ih _ _
    | error fault => exact ih _ _
  | sameFile a b next ih => exact ih _ _

end FileTask

/-- Writes a file unless the output names the source or something else keeps it from being
written. -/
def FileTree.storeUnlessSame (mishaps : Mishaps) (source output : String) (product : List UInt8)
    (tree : FileTree) : FileTree :=
  if tree.sameFile source output then tree
  else
    match tree.writeAmid mishaps output product with
    | .ok tree => tree
    | .error _ => tree

namespace Assembler

variable {args : List String} {tree : FileTree} {mishaps : Mishaps} {source output : String}
  {bytes product : List UInt8} {location : Location}

/-! ### What there is to write -/

/-- The bytes that the content of an input gives rise to: a stored program, or a listing of one. -/
inductive Yields (args : List String) (bytes : List UInt8) : List UInt8 → Prop
  | stored {text : String} {program : Program}
      (hmode : hasFlag args "-d" "--disassemble" = false) (htext : utf8Text? bytes = some text)
      (hprogram : assemble text = .ok program) : Yields args bytes program.toBytes
  | listing {program : Program} (hmode : hasFlag args "-d" "--disassemble")
      (hprogram : Program.ofBytes bytes = .ok program) :
      Yields args bytes (utf8Bytes program.listing)

/-- Where that is to be written. A document is only printed, as is a listing without an output. -/
def destination? (args : List String) (source : String) : Option String :=
  if hasFlag args "-d" "--disassemble" then output? args
  else if args.contains "--json" then none
  else some ((output? args).getD (Path.stored source))

/-- Why the content of an input may give rise to nothing. -/
inductive Fails (args : List String) (bytes : List UInt8) : Prop
  | notText (hmode : hasFlag args "-d" "--disassemble" = false) (htext : utf8Text? bytes = none)
  | notAssembled {text : String} {e : EncodingError}
      (hmode : hasFlag args "-d" "--disassemble" = false) (htext : utf8Text? bytes = some text)
      (hprogram : assemble text = .error e)
  | notLoaded {e : StoreError} (hmode : hasFlag args "-d" "--disassemble")
      (hprogram : Program.ofBytes bytes = .error e)

theorem Fails.not_yields (h : Fails args bytes) : ¬Yields args bytes product := by
  intro hproduct
  cases h with
  | notText hmode htext => cases hproduct <;> simp_all
  | notAssembled hmode htext hprogram => cases hproduct <;> simp_all
  | notLoaded hmode hprogram => cases hproduct <;> simp_all

/-- Why a run may have nothing to write. -/
inductive Idle (args : List String) (mishaps : Mishaps) (tree : FileTree) : Prop
  | help (h : hasFlag args "-h" "--help")
  | noInput (h : input? args = none)
  | unreadable {source : String} {fault : FileFault} (hsource : input? args = some source)
      (hread : tree.readAmid mishaps source = .error fault)
  | failed {source : String} {bytes : List UInt8} (hsource : input? args = some source)
      (hread : tree.readAmid mishaps source = .ok bytes) (h : Fails args bytes)
  | printed {source : String} (hsource : input? args = some source)
      (h : destination? args source = none)
  | overSource {source output : String} (hsource : input? args = some source)
      (houtput : destination? args source = some output) (hsame : tree.NamesSame source output)

/-- All that a run may do to the files: nothing, or what it has to write to one file. -/
inductive Outcome (args : List String) (mishaps : Mishaps) (tree : FileTree) : FileTree → Prop
  | untouched : Outcome args mishaps tree tree
  | written {source output : String} {bytes product : List UInt8} {location : Location}
      (hhelp : hasFlag args "-h" "--help" = false) (hsource : input? args = some source)
      (hread : tree.readAmid mishaps source = .ok bytes) (hproduct : Yields args bytes product)
      (houtput : destination? args source = some output)
      (hother : ¬tree.NamesSame source output)
      (hwritable : tree.writable output.toList = .ok location) :
      Outcome args mishaps tree (tree.put location product)

/-! ### What a run does -/

theorem runAmid_unlessSame {refusal : Printed} {next : Except FileFault Unit → FileTask}
    (hnext : ∀ answer, ∃ printed, next answer = .done printed) :
    ((FileTask.sameFile source output fun same =>
      if same then .done refusal else .write output product next).runAmid mishaps tree).2 =
      tree.storeUnlessSame mishaps source output product := by
  have hafter (answer : Except FileFault Unit) (tree : FileTree) :
      ((next answer).runAmid mishaps tree).2 = tree := by
    obtain ⟨printed, hdone⟩ := hnext answer
    rw [hdone, FileTask.runAmid]
  rw [FileTask.runAmid, FileTree.storeUnlessSame]
  cases tree.sameFile source output with
  | true => rfl
  | false =>
    simp only [Bool.false_eq_true, if_false]
    rw [FileTask.runAmid]
    cases tree.writeAmid mishaps output product <;> exact hafter _ _

theorem store_after (source : String) (program : Program) (args : List String) :
    ((store source program args).runAmid mishaps tree).2 =
      tree.storeUnlessSame mishaps source ((output? args).getD (Path.stored source))
        program.toBytes :=
  runAmid_unlessSame fun answer => by
    cases answer <;> exact ⟨_, rfl⟩

theorem emitListing_after (source listing : String) (args : List String) :
    ((emitListing source listing args).runAmid mishaps tree).2 =
      match output? args with
      | none => tree
      | some output => tree.storeUnlessSame mishaps source output (utf8Bytes listing) := by
  unfold emitListing
  cases output? args with
  | none => rfl
  | some output =>
    refine runAmid_unlessSame fun answer => ?_
    cases answer <;> exact ⟨_, rfl⟩

theorem command_after_of_yields (hhelp : hasFlag args "-h" "--help" = false)
    (hsource : input? args = some source)
    (hread : tree.readAmid mishaps source = .ok bytes) (hproduct : Yields args bytes product) :
    ((command args).runAmid mishaps tree).2 =
      match destination? args source with
      | none => tree
      | some output => tree.storeUnlessSame mishaps source output product := by
  unfold command destination?
  rw [hhelp, hsource]
  cases hproduct with
  | stored hmode htext hprogram =>
    rw [hmode]
    simp only [Bool.false_eq_true, if_false]
    rw [assembleFile, FileTask.runAmid, hread]
    simp only [htext, hprogram]
    split
    · rfl
    · exact store_after source _ args
  | listing hmode hprogram =>
    rw [hmode]
    simp only [Bool.false_eq_true, if_false, if_true]
    rw [disassembleFile, FileTask.runAmid, hread]
    simp only [hprogram]
    exact emitListing_after source _ args

theorem command_after_of_not_yields
    (h : ∀ source bytes product, hasFlag args "-h" "--help" = false → input? args = some source →
      tree.readAmid mishaps source = .ok bytes → ¬Yields args bytes product) :
    ((command args).runAmid mishaps tree).2 = tree := by
  unfold command
  cases hhelp : hasFlag args "-h" "--help" with
  | true => rfl
  | false =>
    cases hsource : input? args with
    | none => rfl
    | some source =>
      cases hmode : hasFlag args "-d" "--disassemble" with
      | false =>
        simp only [Bool.false_eq_true, if_false]
        rw [assembleFile, FileTask.runAmid]
        cases hread : tree.readAmid mishaps source with
        | error fault => rfl
        | ok bytes =>
          cases htext : utf8Text? bytes with
          | none => simp only [htext, failWith, FileTask.runAmid]
          | some text =>
            cases hprogram : assemble text with
            | error e => simp only [htext, hprogram, failWith, FileTask.runAmid]
            | ok program =>
              exact absurd (.stored hmode htext hprogram) (h source bytes _ hhelp hsource hread)
      | true =>
        simp only [Bool.false_eq_true, if_false, if_true]
        rw [disassembleFile, FileTask.runAmid]
        cases hread : tree.readAmid mishaps source with
        | error fault => rfl
        | ok bytes =>
          cases hprogram : Program.ofBytes bytes with
          | error e => simp only [hprogram, failWith, FileTask.runAmid]
          | ok program =>
            exact absurd (.listing hmode hprogram) (h source bytes _ hhelp hsource hread)

/-- A run does nothing to the files, or writes what it has to write to one. -/
theorem command_outcome (args : List String) (mishaps : Mishaps) (tree : FileTree) :
    Outcome args mishaps tree ((command args).runAmid mishaps tree).2 := by
  by_cases hready : ∃ source bytes product, hasFlag args "-h" "--help" = false ∧
      input? args = some source ∧ tree.readAmid mishaps source = .ok bytes ∧
      Yields args bytes product
  · obtain ⟨source, bytes, product, hhelp, hsource, hread, hproduct⟩ := hready
    rw [command_after_of_yields hhelp hsource hread hproduct]
    cases houtput : destination? args source with
    | none => exact .untouched
    | some output =>
      dsimp only
      unfold FileTree.storeUnlessSame
      split
      · exact .untouched
      · rename_i hsame
        have hother : ¬tree.NamesSame source output := by
          rwa [FileTree.sameFile_iff (FileTree.read_of_readAmid hread)] at hsame
        cases hwrite : tree.writeAmid mishaps output product with
        | error fault => exact .untouched
        | ok after =>
          obtain ⟨location, hwritable, rfl⟩ := FileTree.write_of_writeAmid hwrite
          exact .written hhelp hsource hread hproduct houtput hother hwritable
  · rw [command_after_of_not_yields fun source bytes product hhelp hsource hread hproduct =>
      hready ⟨source, bytes, product, hhelp, hsource, hread, hproduct⟩]
    exact .untouched

namespace Outcome

variable {after : FileTree}

theorem eq_of_idle (h : Outcome args mishaps tree after) (hidle : Idle args mishaps tree) :
    after = tree := by
  cases h with
  | untouched => rfl
  | @written source output bytes product location hhelp hsource hread hproduct houtput hother _ =>
    exfalso
    cases hidle with
    | help h => simp [hhelp] at h
    | noInput h => simp [hsource] at h
    | unreadable hsource' hread' =>
      rw [hsource] at hsource'
      cases hsource'
      simp [hread] at hread'
    | failed hsource' hread' hfails =>
      rw [hsource] at hsource'
      cases hsource'
      rw [hread] at hread'
      cases hread'
      exact hfails.not_yields hproduct
    | printed hsource' h =>
      rw [hsource] at hsource'
      cases hsource'
      simp [houtput] at h
    | overSource hsource' houtput' hsame =>
      rw [hsource] at hsource'
      cases hsource'
      rw [houtput] at houtput'
      cases houtput'
      exact hother hsame

theorem content?_eq (h : Outcome args mishaps tree after) :
    ∃ changed, ∀ location, location ≠ changed →
      after.content? location = tree.content? location := by
  cases h with
  | untouched => exact ⟨[], fun _ _ => rfl⟩
  | @written _ _ _ product location _ _ _ _ _ _ _ =>
    exact ⟨location, fun other h => FileTree.content?_put_of_ne h tree product⟩

theorem yields_of_changed (h : Outcome args mishaps tree after)
    (hchanged : after.content? location ≠ tree.content? location) :
    ∃ source output bytes product, input? args = some source ∧
      destination? args source = some output ∧ tree.locate output.toList = .ok location ∧
      tree.read source = .ok bytes ∧ Yields args bytes product ∧
      after.content? location = some product := by
  cases h with
  | untouched => exact absurd rfl hchanged
  | @written source output bytes product written _ hsource hread hproduct houtput _ hwritable =>
    have hlocation : location = written := by
      by_contra hne
      exact hchanged (FileTree.content?_put_of_ne hne tree product)
    subst hlocation
    exact ⟨source, output, bytes, product, hsource, houtput,
      (FileTree.writable_eq_ok hwritable).1, FileTree.read_of_readAmid hread, hproduct,
      FileTree.content?_put_self tree location product⟩

theorem read_source (h : Outcome args mishaps tree after) (hsource : input? args = some source) :
    after.read source = tree.read source := by
  cases h with
  | untouched => rfl
  | @written named output bytes product location _ hnamed hread _ _ hother hwritable =>
    rw [hnamed] at hsource
    cases hsource
    obtain ⟨hlocate, hfile⟩ := FileTree.writable_eq_ok hwritable
    have hlocation : tree.locate source.toList ≠ .ok location := fun hnamed =>
      hother (.inr ⟨location, hnamed, hlocate⟩)
    have hread := FileTree.read_of_readAmid hread
    rw [hread, FileTree.read_put hread hfile hlocation]

end Outcome

/-- A run of the assembler with given arguments, over any files and whatever mishaps reading and
writing meet, changes the content of one location at most, and where it changes one the new content
is the stored program or the listing that the input as it was before the run gives rise to. It
changes none if help is requested, no input is named, the input cannot be read, assembling or
loading fails, the program is only printed, or the output names the input. The input reads after
the run as it read before. A run that meets no mishaps writes what there is to write if the output
names another file that can be written. -/
theorem command_writes_whole_output_or_nothing (args : List String) (tree : FileTree) :
    (∀ mishaps after, ((command args).runAmid mishaps tree).2 = after →
      (∃ changed, ∀ location, location ≠ changed →
        after.content? location = tree.content? location) ∧
      (Idle args mishaps tree → after = tree) ∧
      (∀ location, after.content? location ≠ tree.content? location →
        ∃ source output bytes product, input? args = some source ∧
          destination? args source = some output ∧ tree.locate output.toList = .ok location ∧
          tree.read source = .ok bytes ∧ Yields args bytes product ∧
          after.content? location = some product) ∧
      ∀ source, input? args = some source → after.read source = tree.read source) ∧
    (command args).runAmid .absent tree = (command args).runOn tree ∧
    ∀ source output bytes product location, hasFlag args "-h" "--help" = false →
      input? args = some source → tree.read source = .ok bytes → Yields args bytes product →
      destination? args source = some output → ¬tree.NamesSame source output →
      tree.writable output.toList = .ok location →
      ((command args).runOn tree).2 = tree.put location product := by
  refine ⟨?_, FileTask.runAmid_absent (command args) tree, ?_⟩
  · rintro mishaps after rfl
    have houtcome := command_outcome args mishaps tree
    exact ⟨houtcome.content?_eq, houtcome.eq_of_idle, fun _ => houtcome.yields_of_changed,
      fun _ => houtcome.read_source⟩
  · intro source output bytes product location hhelp hsource hread hproduct houtput hother hwritable
    have hsame : ¬tree.sameFile source output := by
      rwa [FileTree.sameFile_iff hread]
    have hreadAmid : tree.readAmid .absent source = .ok bytes := hread
    rw [← FileTask.runAmid_absent, command_after_of_yields hhelp hsource hreadAmid hproduct,
      houtput]
    dsimp only
    rw [FileTree.storeUnlessSame, if_neg hsame, FileTree.writeAmid, FileTree.write, hwritable]
    rfl

/-- A source is stored beside itself if nothing else is said. -/
theorem command_writes_whole_output_or_nothing_beside :
    let tree : FileTree := ⟨[([['a', '.', 't', 'a', 's', 'm']], utf8Bytes "halt")], [], []⟩
    ∃ program, assemble "halt" = .ok program ∧
      ((command ["-v", "a.tasm"]).runOn tree).2 =
        tree.put [['a', '.', 't', 'i', 'm']] program.toBytes := by
  intro tree
  obtain ⟨program, hprogram⟩ : ∃ program, assemble "halt" = .ok program := ⟨_, rfl⟩
  refine ⟨program, hprogram, ?_⟩
  refine (command_writes_whole_output_or_nothing ["-v", "a.tasm"] tree).2.2 "a.tasm" "a.tim"
    (utf8Bytes "halt") program.toBytes [['a', '.', 't', 'i', 'm']] ?_ ?_ rfl ?_ ?_ ?_ rfl
  · decide
  · decide +kernel
  · exact @Yields.stored _ _ "halt" program (by decide) (by decide +kernel) hprogram
  · decide +kernel
  · rintro (hcomponents | ⟨location, hsource, houtput⟩)
    · exact absurd hcomponents (by decide +kernel)
    · have hlocations : tree.locate "a.tasm".toList ≠ tree.locate "a.tim".toList := by
        decide +kernel
      exact hlocations (hsource.trans houtput.symm)

end Assembler

end InvariantMachine
