/-
# The grammar of the command line

Arguments come in blocks.  Whether an argument is an option depends on what is before it, because
the option for the storage root takes the next argument whatever that looks like.  Still no list of
arguments can be read in two ways: the first argument of a block tells how many there are in it.

What the arguments ask for depends on three things only: the words of the command in their order,
the last storage root, and whether a document is asked for at all.  Hence blocks may change places
as long as words stay in order among words, and storage roots among storage roots.
-/

import FlatDB.Admin.Arguments

namespace FlatDB

namespace Admin

/-! ## Blocks -/

/-- The option for the storage root, in one of its spellings. -/
abbrev RootOption : Type :=
  { argument : String // argument = "--root" ∨ argument = "-r" }

/-- Arguments that belong together. -/
inductive Block where
  /-- The option for the storage root, and the argument after it, whatever that is. -/
  | root (option : RootOption) (directory : String)
  /-- The option for documents. -/
  | json
  /-- Any other argument. -/
  | word (argument : String) (notRoot : ¬ (argument = "--root" ∨ argument = "-r"))
      (notJson : argument ≠ "--json")
  deriving DecidableEq

namespace Block

/-- The arguments of a block. -/
def arguments : Block → List String
  | root option directory => [option.val, directory]
  | json => ["--json"]
  | word argument _ _ => [argument]

/-- The word that a block adds to the command. -/
def word? : Block → Option String
  | word argument _ _ => some argument
  | _ => none

/-- The storage root that a block asks for. -/
def root? : Block → Option String
  | root _ directory => some directory
  | _ => none

end Block

/-- A list of arguments in blocks. -/
structure Reading where
  blocks : List Block
  /-- An option for the storage root at the very end, which no argument follows. -/
  unfinished : Option RootOption := none
  deriving DecidableEq

namespace Reading

/-- The arguments that were read. -/
def arguments (r : Reading) : List String :=
  r.blocks.flatMap Block.arguments ++ (r.unfinished.map Subtype.val).toList

/-- The words of the command, in order. -/
def words (r : Reading) : List String :=
  r.blocks.filterMap Block.word?

/-- The storage roots that are asked for, in order. -/
def roots (r : Reading) : List String :=
  r.blocks.filterMap Block.root?

/-- A block before those that were read. -/
def cons (b : Block) (r : Reading) : Reading :=
  { r with blocks := b :: r.blocks }

/-- Arguments in blocks, read from left to right. -/
def ofArguments : List String → Reading
  | [] => { blocks := [] }
  | argument :: rest =>
    if root : argument = "--root" ∨ argument = "-r" then
      match rest with
      | [] => { blocks := [], unfinished := some ⟨argument, root⟩ }
      | directory :: rest => (ofArguments rest).cons (.root ⟨argument, root⟩ directory)
    else if json : argument = "--json" then (ofArguments rest).cons .json
    else (ofArguments rest).cons (.word argument root json)

/-! ## No two readings -/

theorem arguments_cons (b : Block) (r : Reading) :
    (r.cons b).arguments = b.arguments ++ r.arguments :=
  List.append_assoc _ _ _

/-- The arguments are those that were read. -/
theorem arguments_ofArguments (arguments : List String) :
    (ofArguments arguments).arguments = arguments := by
  fun_induction ofArguments arguments with
  | case1 => rfl
  | case2 => rfl
  | case3 argument root directory rest ih => rw [arguments_cons, ih]; rfl
  | case4 rest root ih => rw [arguments_cons, ih]; rfl
  | case5 argument rest root json ih => rw [arguments_cons, ih]; rfl

/-- The first argument of a block tells where the block ends. -/
theorem ofArguments_append (b : Block) (rest : List String) :
    ofArguments (b.arguments ++ rest) = (ofArguments rest).cons b := by
  cases b with
  | root option directory => exact dif_pos option.property
  | json => simp [Block.arguments, ofArguments]
  | word argument notRoot notJson => simp [Block.arguments, ofArguments, notRoot, notJson]

/-- Blocks are read as they are. -/
theorem ofArguments_arguments (r : Reading) : ofArguments r.arguments = r := by
  obtain ⟨blocks, unfinished⟩ := r
  induction blocks with
  | nil =>
    cases unfinished with
    | none => rfl
    | some option => exact dif_pos option.property
  | cons b blocks ih =>
    have split : (Reading.mk (b :: blocks) unfinished).arguments =
        b.arguments ++ (Reading.mk blocks unfinished).arguments :=
      arguments_cons b ⟨blocks, unfinished⟩
    rw [split, ofArguments_append, ih]
    rfl

theorem arguments_eq_iff {r : Reading} {arguments : List String} :
    r.arguments = arguments ↔ r = ofArguments arguments := by
  constructor
  · rintro rfl
    exact (ofArguments_arguments r).symm
  · rintro rfl
    exact arguments_ofArguments arguments

/-! ## What is asked for -/

/-- Whether a command is asked for. -/
def Asks (r : Reading) : Command → Prop
  | .init => r.words = ["init"]
  | .tables => r.words = ["tables"]
  | .describe table json =>
    r.words = ["describe", table] ∧ (json = true ↔ Block.json ∈ r.blocks)

/-- The settings with the last storage root, if any is asked for. -/
def settings (r : Reading) (s : Settings) : Settings :=
  { s with root := (r.roots.getLast?.map Path.mk).getD s.root }

end Reading

namespace Arguments

variable {r r' : Reading} {s settings : Settings} {command : Command}

/-- Arguments sorted, and a block more. -/
def add (a : Arguments) : Block → Arguments
  | .root _ directory => { a with root := some directory }
  | .json => { a with json := true }
  | .word argument _ _ => { a with words := a.words ++ [argument] }

theorem isRootOption_val (option : RootOption) : isRootOption option.val = true := by
  simpa [isRootOption] using option.property

/-- A block is sorted as a whole. -/
theorem sort_append (a : Arguments) (b : Block) (rest : List String) :
    sort a (b.arguments ++ rest) = sort (a.add b) rest := by
  cases b with
  | root option directory => exact if_pos (isRootOption_val option)
  | json =>
    rw [Block.arguments, List.singleton_append, sort.eq_def]
    exact (if_neg (by decide)).trans (if_pos (by decide))
  | word argument notRoot notJson =>
    have plain : isRootOption argument = false := by simpa [isRootOption] using notRoot
    have other : isJsonOption argument = false := by simpa [isJsonOption] using notJson
    rw [Block.arguments, List.singleton_append, sort.eq_def]
    simp only [plain, other, Bool.false_eq_true, if_false]
    rfl

theorem sort_flatMap (a : Arguments) (blocks : List Block) (rest : List String) :
    sort a (blocks.flatMap Block.arguments ++ rest) = sort (blocks.foldl add a) rest := by
  induction blocks generalizing a with
  | nil => rfl
  | cons b blocks ih =>
    rw [List.flatMap_cons, List.append_assoc, sort_append, ih, List.foldl_cons]

/-- Of several storage roots the last one counts, and of several options for documents any. -/
theorem foldl_add (a : Arguments) (blocks : List Block) :
    blocks.foldl add a =
      { words := a.words ++ blocks.filterMap Block.word?
        json := a.json || decide (Block.json ∈ blocks)
        root := (blocks.filterMap Block.root?).getLast?.or a.root } := by
  induction blocks generalizing a with
  | nil => simp
  | cons b blocks ih =>
    rw [List.foldl_cons, ih]
    cases b with
    | root option directory =>
      simp [add, List.filterMap_cons, Block.word?, Block.root?, List.getLast?_cons]
    | json => simp [add, List.filterMap_cons, Block.word?, Block.root?]
    | word argument notRoot notJson => simp [add, List.filterMap_cons, Block.word?, Block.root?]

/-- What a reading comes to. -/
def ofReading (r : Reading) : Arguments :=
  { words := r.words
    json := decide (Block.json ∈ r.blocks)
    root := r.roots.getLast? }

theorem sort_arguments (r : Reading) :
    sort {} r.arguments =
      if r.unfinished = none then .ok (ofReading r) else .error .missingRoot := by
  rw [Reading.arguments, sort_flatMap, foldl_add]
  obtain ⟨blocks, unfinished⟩ := r
  cases unfinished with
  | none => simp [sort, ofReading, Reading.words, Reading.roots]
  | some option => simp [sort, isRootOption_val]

theorem command_ofReading : (ofReading r).command = .ok command ↔ r.Asks command := by
  rw [Arguments.command, ofReading]
  split
  · next word words =>
    cases command <;> grind [Reading.Asks]
  · next word table words =>
    cases command <;> grind [Reading.Asks]
  · next single pair =>
    cases command with
    | init => simpa [Reading.Asks] using single "init"
    | tables => simpa [Reading.Asks] using single "tables"
    | describe table json => simpa [Reading.Asks] using fun words => absurd words (pair _ _)

theorem settings_ofReading : (ofReading r).settings s = r.settings s := by
  rw [Arguments.settings, ofReading, Reading.settings]
  cases r.roots.getLast? <;> rfl

theorem read_eq_ok : read r.arguments s = .ok (command, settings) ↔
    r.unfinished = none ∧ r.Asks command ∧ settings = r.settings s := by
  rw [read, sort_arguments, ← command_ofReading, ← settings_ofReading]
  by_cases finished : r.unfinished = none
  · cases asked : (ofReading r).command with
    | error e => simp [finished, asked, bind, Except.bind]
    | ok c => simp [finished, asked, bind, Except.bind, pure, Except.pure, eq_comm]
  · simp [finished, bind, Except.bind]

/-- What comes of a reading depends on nothing but the words, the last storage root, whether
documents are asked for, and whether an option is unfinished. -/
theorem read_congr (words : r'.words = r.words)
    (json : Block.json ∈ r'.blocks ↔ Block.json ∈ r.blocks)
    (root : r'.roots.getLast? = r.roots.getLast?)
    (unfinished : r'.unfinished = none ↔ r.unfinished = none) :
    read r'.arguments s = read r.arguments s := by
  have same : ofReading r' = ofReading r := by
    simp only [ofReading, words, json, root]
  simp only [read, sort_arguments, same, unfinished]

/-- Any arguments have one reading in blocks.  They are understood just if no option is unfinished
and the words are those of a command; that command is asked for, with a document if any block asks
for one, under the last storage root, or else the one that is set already.  Nothing changes if the
blocks change places, as long as words and storage roots stay in order, or if an option for
documents is repeated. -/
theorem read_grammar (arguments : List String) (s : Settings) :
    let r := Reading.ofArguments arguments
    (∀ r' : Reading, r'.arguments = arguments ↔ r' = r) ∧
      (∀ command settings, read arguments s = .ok (command, settings) ↔
        r.unfinished = none ∧ r.Asks command ∧ settings = r.settings s) ∧
      (∀ r' : Reading, r'.blocks.Perm r.blocks → r'.words = r.words → r'.roots = r.roots →
        r'.unfinished = r.unfinished → read r'.arguments s = read arguments s) ∧
      ∀ front back, r.blocks = front ++ back → Block.json ∈ r.blocks →
        read (Reading.mk (front ++ .json :: back) r.unfinished).arguments s =
          read arguments s := by
  intro r
  have whole : r.arguments = arguments := Reading.arguments_ofArguments arguments
  refine ⟨fun r' => Reading.arguments_eq_iff, ?_, ?_, ?_⟩
  · intro command settings
    rw [← whole, read_eq_ok]
  · intro r' perm words roots unfinished
    rw [← whole]
    exact read_congr words perm.mem_iff (by rw [roots]) (by rw [unfinished])
  · intro front back split asked
    rw [← whole]
    apply read_congr
    · simp [Reading.words, split, List.filterMap_cons, Block.word?]
    · simp [asked]
    · simp [Reading.roots, split, List.filterMap_cons, Block.root?]
    · rfl

/-- Options and the names of commands can be storage roots, and the first storage root does not
count. -/
theorem read_grammar_sample :
    let arguments := ["--json", "-r", "--json", "describe", "--root", "describe", "t"]
    let reordered : Reading :=
      { blocks := [.root ⟨"-r", .inr rfl⟩ "--json", .word "describe" (by decide) (by decide),
          .word "t" (by decide) (by decide), .json, .root ⟨"--root", .inl rfl⟩ "describe"] }
    let outcome := (Command.describe "t" true, { root := ⟨"describe"⟩ : Settings })
    reordered.blocks.Perm (Reading.ofArguments arguments).blocks ∧
      read arguments {} = .ok outcome ∧
      read ["-r", "--json", "describe", "t", "--json", "--root", "describe"] {} = .ok outcome ∧
      read ("--json" :: arguments) {} = .ok outcome := by
  intro arguments reordered outcome
  obtain ⟨-, understood, moved, repeated⟩ := read_grammar arguments {}
  have perm : reordered.blocks.Perm (Reading.ofArguments arguments).blocks := by decide
  have asked : read arguments {} = .ok outcome :=
    (understood _ _).2 ⟨by decide, ⟨by decide, by decide⟩, by decide⟩
  have other := moved reordered perm (by decide) (by decide) (by decide)
  have twice := repeated [] _ rfl (by decide)
  exact ⟨perm, asked, other.trans asked, twice.trans asked⟩

example : read ["tables", "--root", "init", "-r"] {} = .error .missingRoot := rfl

end Arguments

end Admin

end FlatDB
