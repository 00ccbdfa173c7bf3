import ClipGraph.Proofs.JsonTrees

/-!
# Both layouts of a value

A text says a value with every double as its own text is read, and with nothing in the place of a double
that is no finite number. On one line or on many, the text of a value comes to the tokens of what it
says, so it is read back as that. What a number needs of the text behind it, that it does not go on with
the number, holds behind every item and every member.
-/

namespace ClipGraph.Json

open Token (ofText_null ofText_bool ofText_integer ofText_float ofText_string)
open Partial (tokens itemTokens moreItemTokens memberTokens moreMemberTokens)

mutual

/-- The value that the text of a value says. -/
def said : Json → Json
  | .null => .null
  | .bool b => .bool b
  | .number (.integer n) => .number (.integer n)
  | .number (.float x) => if x.isFinite then .number (.float (reread x)) else .null
  | .string s => .string s
  | .array items => .array (saidItems items)
  | .object members => .object (saidMembers members)

def saidItems : List Json → List Json
  | [] => []
  | v :: rest => said v :: saidItems rest

def saidMembers : List (String × Json) → List (String × Json)
  | [] => []
  | (key, v) :: rest => (key, said v) :: saidMembers rest

end

theorem saidItems_eq_map (items : List Json) : saidItems items = items.map said := by
  induction items with
  | nil => rfl
  | cons v rest ih => rw [saidItems, ih, List.map_cons]

theorem said_float {x : Binary64} (hx : x.isFinite = true) :
    said (.number (.float x)) = .number (.float (reread x)) := if_pos hx

theorem said_float_of_not_finite {x : Binary64} (hx : ¬ x.isFinite = true) :
    said (.number (.float x)) = .null := if_neg hx

/-- A double comes to the token of what its text says. -/
theorem tokens_float (x : Binary64) {rest : List Char} (hr : Stops goesOn rest) :
    Token.ofText (writeNumber (.float x) ++ rest) =
      (whole (said (.number (.float x)))).tokens ++ Token.ofText rest := by
  by_cases hx : x.isFinite = true
  · rw [said_float hx]
    exact ofText_float hx hr
  · rw [said_float_of_not_finite hx, writeNumber, if_neg hx]
    exact ofText_null

mutual

/-- A value on one line comes to its tokens. -/
theorem tokens_compact (j : Json) (hj : (said j).Fits) {rest : List Char} (hr : Stops goesOn rest) :
    Token.ofText (compact j ++ rest) = (whole (said j)).tokens ++ Token.ofText rest := by
  match j, hj with
  | .null, _ => exact ofText_null
  | .bool true, _ => exact ofText_bool true
  | .bool false, _ => exact ofText_bool false
  | .number (.integer n), hn => exact ofText_integer hn hr
  | .number (.float x), _ => exact tokens_float x hr
  | .string s, _ => exact ofText_string s
  | .array items, h =>
    have hclose : Stops goesOn (']' :: rest) := stops_cons (by decide)
    have hitems := tokens_compactItems items h hclose
    simp only [compact, List.cons_append, List.append_assoc, List.nil_append, said, whole, tokens,
      Token.ofText_arrayOpen, hitems, Token.ofText_arrayClose]
  | .object members, h =>
    have hclose : Stops goesOn ('\x7d' :: rest) := stops_cons (by decide)
    have hmembers := tokens_compactMembers members h hclose
    simp only [compact, List.cons_append, List.append_assoc, List.nil_append, said, whole, tokens,
      Token.ofText_objectOpen, hmembers, Token.ofText_objectClose]

theorem tokens_compactItems (items : List Json) (h : FitItems (saidItems items)) {rest : List Char}
    (hr : Stops goesOn rest) : Token.ofText (compactItems items ++ rest) =
      itemTokens (wholeItems (saidItems items)) ++ Token.ofText rest := by
  match items, h with
  | [], _ => rfl
  | [v], h =>
    have hv := tokens_compact v h.1 hr
    simp only [compactItems, saidItems, wholeItems, itemTokens, moreItemTokens, List.append_nil, hv]
  | v :: w :: more, h =>
    have hcomma : Stops goesOn (',' :: (compactItems (w :: more) ++ rest)) :=
      stops_cons (by decide)
    have hv := tokens_compact v h.1 hcomma
    have hmore := tokens_compactItems (w :: more) h.2 hr
    simp only [compactItems, List.append_assoc, List.cons_append, hv, Token.ofText_comma, hmore,
      saidItems, wholeItems, itemTokens, moreItemTokens]

theorem tokens_compactMembers (members : List (String × Json)) (h : FitMembers (saidMembers members))
    {rest : List Char} (hr : Stops goesOn rest) :
    Token.ofText (compactMembers members ++ rest) =
      memberTokens (wholeMembers (saidMembers members)) ++ Token.ofText rest := by
  match members, h with
  | [], _ => rfl
  | [(key, v)], h =>
    have hv := tokens_compact v h.1 hr
    simp only [compactMembers, List.append_assoc, List.cons_append, ofText_string,
      Token.ofText_colon, hv, saidMembers, wholeMembers, memberTokens, moreMemberTokens, List.append_nil]
  | (key, v) :: w :: more, h =>
    have hcomma : Stops goesOn (',' :: (compactMembers (w :: more) ++ rest)) :=
      stops_cons (by decide)
    have hv := tokens_compact v h.1 hcomma
    have hmore := tokens_compactMembers (w :: more) h.2 hr
    simp only [compactMembers, List.append_assoc, List.cons_append, ofText_string,
      Token.ofText_colon, hv, Token.ofText_comma, hmore, saidMembers, wholeMembers, memberTokens,
      moreMemberTokens]

end

theorem stops_prettyItems (depth : Nat) (items : List Json) {rest : List Char}
    (hr : Stops goesOn rest) : Stops goesOn (prettyItems depth items ++ rest) := by
  cases items with
  | nil => exact hr
  | cons v more => exact stops_cons (by decide)

theorem stops_prettyMembers (depth : Nat) (members : List (String × Json)) {rest : List Char}
    (hr : Stops goesOn rest) : Stops goesOn (prettyMembers depth members ++ rest) := by
  cases members with
  | nil => exact hr
  | cons m more => exact stops_cons (by decide)

theorem ofText_colonSpace {rest : List Char} :
    Token.ofText (": ".toList ++ rest) = .colon :: Token.ofText rest := by
  have hblank : Token.ofText (' ' :: rest) = Token.ofText rest := Token.ofText_space (by decide)
  rw [← hblank]
  exact Token.ofText_colon

mutual

/-- A value on many lines comes to its tokens. -/
theorem tokens_pretty (depth : Nat) (j : Json) (hj : (said j).Fits) {rest : List Char}
    (hr : Stops goesOn rest) :
    Token.ofText (pretty depth j ++ rest) = (whole (said j)).tokens ++ Token.ofText rest := by
  match j, hj with
  | .null, _ => exact ofText_null
  | .bool true, _ => exact ofText_bool true
  | .bool false, _ => exact ofText_bool false
  | .number (.integer n), hn => exact ofText_integer hn hr
  | .number (.float x), _ => exact tokens_float x hr
  | .string s, _ => exact ofText_string s
  | .array [], _ => exact Token.ofText_arrayOpen.trans (congrArg _ Token.ofText_arrayClose)
  | .object [], _ => exact Token.ofText_objectOpen.trans (congrArg _ Token.ofText_objectClose)
  | .array (v :: more), h =>
    have hclose : Stops goesOn (newLine depth ++ (']' :: rest)) := stops_cons (by decide)
    have hv := tokens_pretty (depth + 1) v h.1 (stops_prettyItems (depth + 1) more hclose)
    have hmore := tokens_prettyItems (depth + 1) more h.2 hclose
    simp only [pretty, List.cons_append, List.append_assoc, List.nil_append, said, saidItems, whole, wholeItems,
      tokens, itemTokens, Token.ofText_arrayOpen, Token.ofText_newLine, hv, hmore,
      Token.ofText_arrayClose]
  | .object ((key, v) :: more), h =>
    have hclose : Stops goesOn (newLine depth ++ ('\x7d' :: rest)) := stops_cons (by decide)
    have hv := tokens_pretty (depth + 1) v h.1 (stops_prettyMembers (depth + 1) more hclose)
    have hmore := tokens_prettyMembers (depth + 1) more h.2 hclose
    simp only [pretty, List.cons_append, List.append_assoc, List.nil_append, said, saidMembers, whole, wholeMembers,
      tokens, memberTokens, Token.ofText_objectOpen, Token.ofText_newLine, ofText_string,
      ofText_colonSpace, hv, hmore, Token.ofText_objectClose]

theorem tokens_prettyItems (depth : Nat) (items : List Json) (h : FitItems (saidItems items))
    {rest : List Char} (hr : Stops goesOn rest) : Token.ofText (prettyItems depth items ++ rest) =
      moreItemTokens (wholeItems (saidItems items)) ++ Token.ofText rest := by
  match items, h with
  | [], _ => rfl
  | v :: more, h =>
    have hv := tokens_pretty depth v h.1 (stops_prettyItems depth more hr)
    have hmore := tokens_prettyItems depth more h.2 hr
    simp only [prettyItems, List.cons_append, List.append_assoc, Token.ofText_comma,
      Token.ofText_newLine, hv, hmore, saidItems, wholeItems, moreItemTokens]

theorem tokens_prettyMembers (depth : Nat) (members : List (String × Json))
    (h : FitMembers (saidMembers members)) {rest : List Char} (hr : Stops goesOn rest) :
    Token.ofText (prettyMembers depth members ++ rest) =
      moreMemberTokens (wholeMembers (saidMembers members)) ++ Token.ofText rest := by
  match members, h with
  | [], _ => rfl
  | (key, v) :: more, h =>
    have hv := tokens_pretty depth v h.1 (stops_prettyMembers depth more hr)
    have hmore := tokens_prettyMembers depth more h.2 hr
    simp only [prettyMembers, List.cons_append, List.append_assoc, Token.ofText_comma,
      Token.ofText_newLine, ofText_string, ofText_colonSpace, hv, hmore, saidMembers, wholeMembers,
      moreMemberTokens]

end

/-- A value is read back from its text on one line. -/
theorem Document.ofText_compact {j : Json} (hj : (said j).Fits) :
    Document.ofText (compact j) = ⟨whole (said j), true⟩ := by
  have htokens := tokens_compact j hj (stops_nil goesOn)
  rw [List.append_nil, Token.ofText_nil, List.append_nil] at htokens
  exact Document.ofText_of_tokens (isWhole_whole (said j)) htokens

/-- A value is read back from its text on many lines. -/
theorem Document.ofText_pretty {j : Json} (hj : (said j).Fits) (depth : Nat) :
    Document.ofText (pretty depth j) = ⟨whole (said j), true⟩ := by
  have htokens := tokens_pretty depth j hj (stops_nil goesOn)
  rw [List.append_nil, Token.ofText_nil, List.append_nil] at htokens
  exact Document.ofText_of_tokens (isWhole_whole (said j)) htokens

end ClipGraph.Json
