import ClipGraph.Proofs.Literals
import ClipGraph.Proofs.Valid
import ClipGraph.Script.Statement

/-!
# The grammar of scripts

A reader of scripts that knows nothing of graphs: two fixed lines, then one sentence a line. A sentence
says what a statement says, with texts as themselves and every other literal as it is spelled. The
reader goes from left to right and never looks back, because every piece of a line is told by its
first characters and ends before the character that follows it.
-/

namespace ClipGraph

/-- A literal as a reader sees it. -/
inductive Spelling where
  | text (s : String)
  | plain (cs : List Char)
  deriving DecidableEq, Repr

inductive Sentence where
  | load (node : NodeId) (function path : String)
  | call (node : NodeId) (position : Nat) (plugin function : String) (input : Variable)
      (arguments : List (String × Spelling))
  | bind (input : Variable) (slot : UInt32)
  deriving DecidableEq, Repr

def Param.spelling : Param → Spelling
  | .text s => .text s
  | value => .plain value.literal

def Statement.sentence : Statement → Sentence
  | .load node function path => .load node function path
  | .call node position plugin function input arguments =>
    .call node position plugin function input (arguments.map fun a => (a.name, a.value.spelling))
  | .bind input slot => .bind input slot

theorem IsName.ne_nil {s : String} (hs : IsName s) : s.toList ≠ [] := by
  obtain ⟨c, cs, hword, -⟩ := hs.word
  rw [hword]
  exact List.cons_ne_nil c cs

theorem IsName.isTail {s : String} (hs : IsName s) : ∀ c ∈ s.toList, Identifier.isTail c = true := by
  obtain ⟨c, cs, hword, hc, hcs⟩ := hs.word
  intro d hd
  rw [hword] at hd
  rw [Identifier.isTail_iff]
  rcases List.mem_cons.mp hd with rfl | hd
  · exact hc.imp_right .inr
  · exact hcs d hd

namespace Reading

/-- Takes a value off the front of a text and answers what follows it. -/
abbrev Reader (α : Type) := List Char → Option (α × List Char)

def expect : List Char → List Char → Option (List Char)
  | [], cs => some cs
  | t :: ts, c :: cs => if t = c then expect ts cs else none
  | _ :: _, [] => none

/-- The longest front of characters of one kind, which must not be empty. -/
def span (p : Char → Bool) : Reader (List Char) := fun cs =>
  if (cs.takeWhile p).isEmpty then none else some (cs.takeWhile p, cs.dropWhile p)

def number : Reader Nat := fun cs =>
  (span Char.isDigit cs).map fun (digits, cs) => (Text.natOf digits, cs)

def word : Reader UInt32 := fun cs => do
  let (n, cs) ← number cs
  if n < 2 ^ 32 then some (UInt32.ofNat n, cs) else none

def variableName : Reader Variable := fun cs =>
  match expect "src_".toList cs with
  | some cs => (word cs).map fun (node, cs) => (.source ⟨node⟩, cs)
  | none => do
    let cs ← expect "fx_".toList cs
    let (node, cs) ← word cs
    let cs ← expect ['_'] cs
    let (position, cs) ← number cs
    return (.filter ⟨node⟩ position, cs)

def name : Reader String := fun cs => do
  let (w, cs) ← span Identifier.isTail cs
  if isIdentifier (.ofList w) then some (.ofList w, cs) else none

def callee : Reader (String × String) := fun cs => do
  let (plugin, cs) ← name cs
  let cs ← expect ['.'] cs
  let (function, cs) ← name cs
  return ((plugin, function), cs)

/-- The characters of literals that are no texts. -/
def isPlain (c : Char) : Bool := Literal.isNumeral c || Identifier.isTail c

/-- A text between quotes, or a word of plain characters. The word that names the conversion to a
double takes a text in brackets with it. -/
def literal : Reader Spelling := fun cs =>
  match Literal.unquote cs with
  | some (s, cs) => some (.text (.ofList s), cs)
  | none => do
    let (w, cs) ← span isPlain cs
    if w = "float".toList then do
      let cs ← expect "(\"".toList cs
      let (x, cs) ← span isPlain cs
      let cs ← expect "\")".toList cs
      return (.plain ("float(\"".toList ++ x ++ "\")".toList), cs)
    else some (.plain w, cs)

def argument : Reader (String × Spelling) := fun cs => do
  let cs ← expect ", ".toList cs
  let (n, cs) ← name cs
  let cs ← expect ['='] cs
  let (value, cs) ← literal cs
  return ((n, value), cs)

def arguments (cs : List Char) : List (String × Spelling) × List Char :=
  match argument cs with
  | none => ([], cs)
  | some (a, rest) =>
    if rest.length < cs.length then
      let (as, after) := arguments rest
      (a :: as, after)
    else ([], cs)
termination_by cs.length

def sentence? (line : List Char) : Option Sentence := do
  let (v, cs) ← variableName line
  match expect " = core.".toList cs, v with
  | none, _ => do
    let cs ← expect ".set_output(".toList cs
    let (slot, cs) ← word cs
    if cs = [')'] then some (.bind v slot) else none
  | some cs, .source node => do
    let ((plugin, function), cs) ← callee cs
    let cs ← expect "(source=".toList cs
    let (path, cs) ← Literal.unquote cs
    if cs = [')'] then some (.load node (plugin ++ "." ++ function) (.ofList path)) else none
  | some cs, .filter node position => do
    let ((plugin, function), cs) ← callee cs
    let cs ← expect ['('] cs
    let (input, cs) ← variableName cs
    let (as, cs) := arguments cs
    if cs = [')'] then some (.call node position plugin function input as) else none

/-- The lines of a text, if the last one has an end. -/
def lines? : List Char → Option (List (List Char))
  | [] => some []
  | c :: cs =>
    if c = '\n' then (lines? cs).map ([] :: ·)
    else match lines? cs with
      | some (line :: rest) => some ((c :: line) :: rest)
      | _ => none

/-- The sentences of a script. -/
def script? (text : List Char) : Option (List Sentence) := do
  match ← lines? text with
  | first :: second :: rest =>
    if [first, second] = Program.preamble then rest.mapM sentence? else none
  | _ => none

@[simp] theorem expect_nil (cs : List Char) : expect [] cs = some cs := rfl

@[simp] theorem expect_cons (t c : Char) (ts cs : List Char) :
    expect (t :: ts) (c :: cs) = if t = c then expect ts cs else none := rfl

theorem span_append {p : Char → Bool} {w rest : List Char} (hw : w ≠ [])
    (hp : ∀ c ∈ w, p c = true) (hr : Stops p rest) : span p (w ++ rest) = some (w, rest) := by
  simp [span, takeWhile_run hp hr, dropWhile_run hp hr, hw]

theorem number_decimal (n : Nat) {rest : List Char} (hr : Stops Char.isDigit rest) :
    number (decimal n ++ rest) = some (n, rest) := by
  have h := span_append (decimal_ne_nil n) (fun _ => isDigit_of_mem_decimal) hr
  simp [number, h]

theorem word_decimal (n : UInt32) {rest : List Char} (hr : Stops Char.isDigit rest) :
    word (decimal n.toNat ++ rest) = some (n, rest) := by
  simp [word, number_decimal n.toNat hr, n.toNat_lt]

/-- A variable is read off the front of whatever does not go on with a digit. -/
theorem variableName_name (v : Variable) {rest : List Char} (hr : Stops Char.isDigit rest) :
    variableName (v.name ++ rest) = some (v, rest) := by
  cases v with
  | source node => simp [variableName, Variable.name, NodeId.index, word_decimal node.val hr]
  | filter node position =>
    have hplace : Stops Char.isDigit ('_' :: (decimal position ++ rest)) := stops_cons rfl
    simp [variableName, Variable.name, NodeId.index, word_decimal node.val hplace,
      number_decimal position hr]

/-- Different variables have different names. -/
theorem name_injective : Function.Injective Variable.name := by
  intro v w h
  have hstop : Stops Char.isDigit [] := by simp [Stops]
  have hv := variableName_name v hstop
  rw [h, variableName_name w hstop] at hv
  simpa using hv.symm

theorem name_append {s : String} (hs : IsName s) {rest : List Char}
    (hr : Stops Identifier.isTail rest) : name (s.toList ++ rest) = some (s, rest) := by
  have hspan := span_append hs.ne_nil hs.isTail hr
  simp [name, hspan, (isIdentifier_iff s).mpr hs]

/-- A plugin and its function are read back. -/
theorem callee_append {plugin function : String} (hp : IsName plugin) (hf : IsName function)
    {rest : List Char} (hr : Stops Identifier.isTail rest) :
    callee (plugin.toList ++ '.' :: (function.toList ++ rest)) =
      some ((plugin, function), rest) := by
  have hdot : Stops Identifier.isTail ('.' :: (function.toList ++ rest)) := stops_cons (by decide)
  simp [callee, name_append hp hdot, name_append hf hr]

/-- A run of plain characters that is not the name of a conversion. -/
theorem literal_plain {w rest : List Char} (hw : w ≠ []) (hp : ∀ c ∈ w, isPlain c = true)
    (hfloat : w ≠ "float".toList) (hr : Stops isPlain rest) :
    literal (w ++ rest) = some (.plain w, rest) := by
  have hquote : Literal.unquote (w ++ rest) = none := by
    cases w with
    | nil => exact absurd rfl hw
    | cons c w =>
      have hc : c ≠ '"' := by
        rintro rfl
        exact absurd (hp '"' List.mem_cons_self) (by decide)
      simp [Literal.unquote, hc]
  rw [literal, hquote]
  simp only [span_append hw hp hr, Option.bind_eq_bind, Option.bind_some, if_neg hfloat]

theorem literal_numeral {w rest : List Char} (hw : Literal.Numeral w) (hr : Stops isPlain rest) :
    literal (w ++ rest) = some (.plain w, rest) := by
  apply literal_plain hw.nonempty (fun c hc => by simp [isPlain, hw.chars c hc]) _ hr
  rintro rfl
  exact absurd (hw.chars 'f' (by decide)) (by decide)

/-- The conversion of a word to a double. -/
theorem literal_float {x rest : List Char} (hx : x ≠ []) (hp : ∀ c ∈ x, isPlain c = true) :
    literal ("float(\"".toList ++ x ++ "\")".toList ++ rest) =
      some (.plain ("float(\"".toList ++ x ++ "\")".toList), rest) := by
  have hline : "float(\"".toList ++ x ++ "\")".toList ++ rest =
      "float".toList ++ ('(' :: '"' :: (x ++ '"' :: ')' :: rest)) := by simp
  have hquote : Literal.unquote ("float".toList ++ ('(' :: '"' :: (x ++ '"' :: ')' :: rest))) =
      none := rfl
  have hw : span isPlain ("float".toList ++ ('(' :: '"' :: (x ++ '"' :: ')' :: rest))) =
      some ("float".toList, '(' :: '"' :: (x ++ '"' :: ')' :: rest)) :=
    span_append (by decide) (List.all_eq_true.mp (by decide)) (stops_cons (by decide))
  have hword : span isPlain (x ++ '"' :: ')' :: rest) = some (x, '"' :: ')' :: rest) :=
    span_append hx hp (stops_cons (by decide))
  have hopen : ∀ cs, expect "(\"".toList ('(' :: '"' :: cs) = some cs := fun _ => rfl
  have hclose : ∀ cs, expect "\")".toList ('"' :: ')' :: cs) = some cs := fun _ => rfl
  rw [hline, literal, hquote]
  simp only [hw, hopen, hword, hclose, Option.bind_eq_bind, Option.bind_some, Option.pure_def,
    if_true]

/-- A literal is read off the front of whatever does not go on with a plain character. -/
theorem literal_append (value : Param) {rest : List Char} (hr : Stops isPlain rest) :
    literal (value.literal ++ rest) = some (value.spelling, rest) := by
  cases value with
  | bool b =>
    cases b <;> exact literal_plain (by decide) (List.all_eq_true.mp (by decide)) (by decide) hr
  | int n => exact literal_numeral (Literal.numeral_writeInt _) hr
  | float x =>
    rcases Literal.writeFloat_cases x with ⟨w, hw, hx⟩ | hx
    · simp only [Param.spelling, Param.literal, hx]
      have hword : ∀ w ∈ ["nan", "-inf", "inf"], w.toList ≠ [] ∧ w.toList.all isPlain = true := by
        decide
      exact literal_float (hword w hw).1 (List.all_eq_true.mp (hword w hw).2)
    · exact literal_numeral hx hr
  | text s => simp [literal, Param.literal, Param.spelling, Literal.unquote_quote]

theorem argument_append {a : Argument} (ha : IsName a.name) {rest : List Char}
    (hr : Stops isPlain rest) :
    argument (Statement.argument a ++ rest) = some ((a.name, a.value.spelling), rest) := by
  have hequals : Stops Identifier.isTail ('=' :: (a.value.literal ++ rest)) :=
    stops_cons (by decide)
  simp [argument, Statement.argument, name_append ha hequals, literal_append a.value hr]

/-- What comes behind an argument: one more or the closing bracket. -/
theorem stops_arguments (as : List Argument) (rest : List Char) :
    Stops isPlain (as.flatMap Statement.argument ++ ')' :: rest) := by
  cases as with
  | nil => exact stops_cons (by decide)
  | cons a as => exact stops_cons (by decide)

/-- All arguments are read up to the closing bracket. -/
theorem arguments_append {as : List Argument} (has : ∀ a ∈ as, IsName a.name) (rest : List Char) :
    arguments (as.flatMap Statement.argument ++ ')' :: rest) =
      (as.map fun a => (a.name, a.value.spelling), ')' :: rest) := by
  induction as with
  | nil =>
    have hnone : argument (')' :: rest) = none := by simp [argument]
    rw [List.flatMap_nil, List.nil_append, arguments, hnone]
    rfl
  | cons a as ih =>
    obtain ⟨ha, has⟩ := List.forall_mem_cons.mp has
    rw [List.flatMap_cons, List.append_assoc, arguments, argument_append ha (stops_arguments as rest)]
    have hshorter : (as.flatMap Statement.argument ++ ')' :: rest).length <
        (Statement.argument a ++ (as.flatMap Statement.argument ++ ')' :: rest)).length := by
      simp [Statement.argument]
      omega
    simp only [if_pos hshorter, ih has, List.map_cons]

end Reading

/-- Everything that a statement writes as it stands is a name. -/
def Statement.Proper : Statement → Prop
  | .load _ function _ => ∃ plugin name, IsName plugin ∧ IsName name ∧ function = plugin ++ "." ++ name
  | .call _ _ plugin function _ arguments =>
    IsName plugin ∧ IsName function ∧ ∀ a ∈ arguments, IsName a.name
  | .bind _ _ => True

namespace Reading

/-- The line that loads a source is read back. -/
theorem sentence?_load (node : NodeId) {plugin name : String} (hp : IsName plugin)
    (hn : IsName name) (path : String) :
    sentence? (Statement.load node (plugin ++ "." ++ name) path).line =
      some (.load node (plugin ++ "." ++ name) path) := by
  have hline : (Statement.load node (plugin ++ "." ++ name) path).line =
      (Variable.source node).name ++ (" = core.".toList ++ (plugin.toList ++ '.' ::
        (name.toList ++ ("(source=".toList ++ (Literal.quote path.toList ++ [')']))))) := by
    simp [Statement.line]
  have hspace : Stops Char.isDigit (" = core.".toList ++ (plugin.toList ++ '.' :: (name.toList ++
      ("(source=".toList ++ (Literal.quote path.toList ++ [')']))))) := stops_cons (by decide)
  have hopen : Stops Identifier.isTail
      ("(source=".toList ++ (Literal.quote path.toList ++ [')'])) := stops_cons (by decide)
  have hcallee := callee_append hp hn hopen
  simp only [Char.isValue, String.reduceToList, List.cons_append, List.nil_append] at hcallee
  rw [hline, sentence?, variableName_name _ hspace]
  simp [hcallee, Literal.unquote_quote]

/-- The line that calls a filter is read back, with its arguments. -/
theorem sentence?_call (node : NodeId) (position : Nat) {plugin function : String}
    (hp : IsName plugin) (hf : IsName function) (input : Variable) {as : List Argument}
    (has : ∀ a ∈ as, IsName a.name) :
    sentence? (Statement.call node position plugin function input as).line =
      some (.call node position plugin function input
        (as.map fun a => (a.name, a.value.spelling))) := by
  have hline : (Statement.call node position plugin function input as).line =
      (Variable.filter node position).name ++ (" = core.".toList ++ (plugin.toList ++ '.' ::
        (function.toList ++ ('(' :: (input.name ++
          (as.flatMap Statement.argument ++ [')'])))))) := by
    simp [Statement.line]
  have hspace : Stops Char.isDigit (" = core.".toList ++ (plugin.toList ++ '.' ::
      (function.toList ++ ('(' :: (input.name ++
        (as.flatMap Statement.argument ++ [')'])))))) := stops_cons (by decide)
  have hopen : Stops Identifier.isTail
      ('(' :: (input.name ++ (as.flatMap Statement.argument ++ [')']))) := stops_cons (by decide)
  have hinput : Stops Char.isDigit (as.flatMap Statement.argument ++ [')']) := by
    cases as <;> exact stops_cons (by decide)
  rw [hline, sentence?, variableName_name _ hspace]
  simp [callee_append hp hf hopen, variableName_name input hinput, arguments_append has []]

/-- The line that binds a slot is read back. -/
theorem sentence?_bind (input : Variable) (slot : UInt32) :
    sentence? (Statement.bind input slot).line = some (.bind input slot) := by
  have hline : (Statement.bind input slot).line =
      input.name ++ (".set_output(".toList ++ (decimal slot.toNat ++ [')'])) := by
    simp [Statement.line]
  have hdot : Stops Char.isDigit (".set_output(".toList ++ (decimal slot.toNat ++ [')'])) :=
    stops_cons (by decide)
  have hclose : Stops Char.isDigit [')'] := stops_cons (by decide)
  rw [hline, sentence?, variableName_name _ hdot]
  simp [word_decimal slot hclose]

/-- The line of a statement says what the statement says. -/
theorem sentence?_line {s : Statement} (hs : s.Proper) : sentence? s.line = some s.sentence := by
  cases s with
  | load node function path =>
    obtain ⟨plugin, name, hp, hn, rfl⟩ := hs
    exact sentence?_load node hp hn path
  | call node position plugin function input as =>
    obtain ⟨hp, hf, has⟩ := hs
    exact sentence?_call node position hp hf input has
  | bind input slot => exact sentence?_bind input slot

/-- The next line of a text, which goes up to its first line end. -/
theorem lines?_append {line : List Char} (h : '\n' ∉ line) (rest : List Char) :
    lines? (line ++ '\n' :: rest) = (lines? rest).map (line :: ·) := by
  induction line with
  | nil => simp [lines?]
  | cons c line ih =>
    rw [List.mem_cons, not_or] at h
    rw [List.cons_append, lines?, if_neg (Ne.symm h.1), ih h.2]
    cases lines? rest <;> rfl

/-- Lines that hold no line feed are read back from the text. -/
theorem lines?_flatMap {ls : List (List Char)} (h : ∀ l ∈ ls, '\n' ∉ l) :
    lines? (ls.flatMap (· ++ ['\n'])) = some ls := by
  induction ls with
  | nil => rfl
  | cons l ls ih =>
    obtain ⟨hl, hls⟩ := List.forall_mem_cons.mp h
    rw [List.flatMap_cons, List.append_assoc, List.singleton_append, lines?_append hl, ih hls]
    rfl

end Reading

theorem IsName.clean {s : String} (hs : IsName s) : Clean s.toList :=
  fun c hc => not_control_of_isTail (hs.isTail c hc)

theorem Variable.clean_name (v : Variable) : Clean v.name := by
  cases v with
  | source node => exact clean_append.mpr ⟨by decide, clean_decimal _⟩
  | filter node position =>
    simp only [name, clean_append, clean_cons]
    exact ⟨⟨by decide, clean_decimal _⟩, by decide, clean_decimal _⟩

/-- The line of a statement is one line. -/
theorem Statement.Proper.clean_line {s : Statement} (hs : s.Proper) : Clean s.line := by
  cases s with
  | load node function path =>
    obtain ⟨plugin, name, hp, hn, rfl⟩ := hs
    simp only [line, String.toList_append, clean_append]
    exact ⟨⟨⟨⟨⟨Variable.clean_name _, by decide⟩, ⟨hp.clean, by decide⟩, hn.clean⟩, by decide⟩,
      Literal.clean_quote _⟩, by decide⟩
  | call node position plugin function input as =>
    obtain ⟨hp, hf, has⟩ := hs
    have hargs : Clean (as.flatMap argument) := by
      intro c hc
      obtain ⟨a, ha, hc⟩ := List.mem_flatMap.mp hc
      have harg : Clean (argument a) := by
        simp only [argument, clean_append, clean_cons]
        exact ⟨⟨by decide, (has a ha).clean⟩, by decide, a.value.clean_literal⟩
      exact harg c hc
    simp only [line, clean_append, clean_cons]
    exact ⟨⟨⟨⟨⟨⟨Variable.clean_name _, by decide⟩, hp.clean⟩, by decide, hf.clean⟩, by decide,
      Variable.clean_name _⟩, hargs⟩, by decide⟩
  | bind input slot =>
    simp only [line, clean_append]
    exact ⟨⟨⟨Variable.clean_name _, by decide⟩, clean_decimal _⟩, by decide⟩

/-- No line of a proper program holds a line feed. -/
theorem Program.newline_not_mem_line {p : Program} (hp : ∀ s ∈ p.statements, s.Proper) :
    ∀ l ∈ p.lines, '\n' ∉ l := by
  intro l hl
  rcases List.mem_append.mp hl with hl | hl
  · have hpreamble : ∀ l ∈ Program.preamble, '\n' ∉ l := by decide
    exact hpreamble l hl
  · obtain ⟨s, hs, rfl⟩ := List.mem_map.mp hl
    exact (hp s hs).clean_line.not_mem_newline

namespace Reading

/-- The text of a program says what its statements say, one after the other. -/
theorem script?_text {p : Program} (hp : ∀ s ∈ p.statements, s.Proper) :
    script? p.text = some (p.statements.map Statement.sentence) := by
  have hlines : lines? p.text = some p.lines := lines?_flatMap (Program.newline_not_mem_line hp)
  have hsentences : ∀ ss : List Statement, (∀ s ∈ ss, s.Proper) →
      (ss.map Statement.line).mapM sentence? = some (ss.map Statement.sentence) := by
    intro ss
    induction ss with
    | nil => exact fun _ => rfl
    | cons s ss ih =>
      intro hss
      obtain ⟨hs, hss⟩ := List.forall_mem_cons.mp hss
      simp [sentence?_line hs, ih hss]
  rw [script?, hlines]
  simp [Program.lines, Program.preamble, hsentences p.statements hp]

end Reading
end ClipGraph
