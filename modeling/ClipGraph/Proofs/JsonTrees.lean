import ClipGraph.Json.Partial
import ClipGraph.Proofs.JsonTokens

/-!
# Trees of JSON texts

The tokens of a whole tree, taken one at a time, put that tree into whatever container is under way.
So a text whose tokens are those of a tree is read as that tree. In the other direction nothing is made
up: every number in the tree of a text, broken or not, is a number of the text.
-/

namespace ClipGraph.Json

mutual

def whole : Json → Partial
  | .null => .null
  | .bool b => .bool b
  | .number n => .number n
  | .string s => .string (some s)
  | .array items => .array (wholeItems items)
  | .object members => .object (wholeMembers members)

def wholeItems : List Json → List Partial
  | [] => []
  | v :: rest => whole v :: wholeItems rest

def wholeMembers : List (String × Json) → List (Option String × Partial)
  | [] => []
  | (key, v) :: rest => (some key, whole v) :: wholeMembers rest

end

namespace Partial

mutual

/-- The words that a tree is written with. -/
def tokens : Partial → List Token
  | .null => [.null]
  | .bool b => [.bool b]
  | .number n => [.number n]
  | .string s => [.string s]
  | .array items => .arrayOpen :: (itemTokens items ++ [.arrayClose])
  | .object members => .objectOpen :: (memberTokens members ++ [.objectClose])
  | .broken => [.bad]

def itemTokens : List Partial → List Token
  | [] => []
  | v :: rest => tokens v ++ moreItemTokens rest

def moreItemTokens : List Partial → List Token
  | [] => []
  | v :: rest => .comma :: (tokens v ++ moreItemTokens rest)

def memberTokens : List (Option String × Partial) → List Token
  | [] => []
  | (key, v) :: rest => .string key :: .colon :: (tokens v ++ moreMemberTokens rest)

def moreMemberTokens : List (Option String × Partial) → List Token
  | [] => []
  | (key, v) :: rest => .comma :: .string key :: .colon :: (tokens v ++ moreMemberTokens rest)

end

end Partial

namespace Reading

/-- Where a first item may come the words of a tree are taken as where any value may come. -/
theorem foldl_tokens_firstItem {v : Partial} (hv : v.isWhole = true) (frames : List Frame) :
    v.tokens.foldl take (.under .firstItem frames) =
      v.tokens.foldl take (.under .value frames) := by
  cases v with
  | null => rfl
  | bool b => rfl
  | number n => rfl
  | string s => rfl
  | array items => cases items <;> rfl
  | object members => cases members <;> rfl
  | broken => simp [Partial.isWhole] at hv

-- The three are one induction over the tree. The containers under way stay general, because the
-- children of a container are put under it.
mutual

/-- The words of a whole tree put it into the container under way. -/
theorem foldl_tokens (v : Partial) (hv : v.isWhole = true) (frames : List Frame) :
    v.tokens.foldl take (.under .value frames) = put v frames := by
  match v, hv with
  | .null, _ => rfl
  | .bool b, _ => rfl
  | .number n, _ => rfl
  | .string s, _ => rfl
  | .array [], _ => rfl
  | .object [], _ => rfl
  | .array (v :: rest), h =>
    obtain ⟨hv, hrest⟩ : v.isWhole = true ∧ Partial.allWhole rest = true := by
      simpa [Partial.isWhole, Partial.allWhole] using h
    have hopen : take (.under .value frames) .arrayOpen =
        .under .firstItem (.array [] :: frames) := rfl
    have hfirst := foldl_tokens v hv (.array [] :: frames)
    have hmore := foldl_moreItemTokens rest hrest [v] frames
    simp only [Partial.tokens, Partial.itemTokens, List.foldl_cons, List.foldl_append,
      List.foldl_nil]
    rw [hopen, foldl_tokens_firstItem hv, hfirst, put, hmore]
    simp [take]
  | .object ((key, v) :: rest), h =>
    obtain ⟨hv, hrest⟩ : v.isWhole = true ∧ Partial.allMembersWhole rest = true := by
      simpa [Partial.isWhole, Partial.allMembersWhole] using h
    have hopen : take (.under .value frames) .objectOpen =
        .under .firstKey (.object [] none :: frames) := rfl
    have hfirst := foldl_tokens v hv (.object [] key :: frames)
    have hmore := foldl_moreMemberTokens rest hrest [(key, v)] frames
    have hkey : take (take (.under .firstKey (.object [] none :: frames)) (.string key)) .colon =
        .under .value (.object [] key :: frames) := rfl
    simp only [Partial.tokens, Partial.memberTokens, List.foldl_cons, List.foldl_append,
      List.foldl_nil]
    rw [hopen, hkey, hfirst, put, hmore]
    simp [take]

theorem foldl_moreItemTokens (items : List Partial) (hv : Partial.allWhole items = true)
    (done : List Partial) (frames : List Frame) :
    (Partial.moreItemTokens items).foldl take (.under .afterItem (.array done :: frames)) =
      .under .afterItem (.array (items.reverse ++ done) :: frames) := by
  match items, hv with
  | [], _ => rfl
  | v :: rest, h =>
    obtain ⟨hv, hrest⟩ : v.isWhole = true ∧ Partial.allWhole rest = true := by
      simpa [Partial.allWhole] using h
    have hvalue := foldl_tokens v hv (.array done :: frames)
    have hmore := foldl_moreItemTokens rest hrest (v :: done) frames
    simp only [Partial.moreItemTokens, List.foldl_cons, List.foldl_append, take, hvalue, put, hmore]
    simp

theorem foldl_moreMemberTokens (members : List (Option String × Partial))
    (hv : Partial.allMembersWhole members = true)
    (done : List (Option String × Partial)) (frames : List Frame) :
    (Partial.moreMemberTokens members).foldl take
      (.under .afterMember (.object done none :: frames)) =
      .under .afterMember (.object (members.reverse ++ done) none :: frames) := by
  match members, hv with
  | [], _ => rfl
  | (key, v) :: rest, h =>
    obtain ⟨hv, hrest⟩ : v.isWhole = true ∧ Partial.allMembersWhole rest = true := by
      simpa [Partial.allMembersWhole] using h
    have hvalue := foldl_tokens v hv (.object done key :: frames)
    have hmore := foldl_moreMemberTokens rest hrest ((key, v) :: done) frames
    simp only [Partial.moreMemberTokens, List.foldl_cons, List.foldl_append, take, hvalue, put,
      hmore]
    simp

end

end Reading

/-- A text that is written with the words of a whole tree is read as that tree. -/
theorem Document.ofText_of_tokens {cs : List Char} {v : Partial} (hv : v.isWhole = true)
    (h : Token.ofText cs = v.tokens) : Document.ofText cs = ⟨v, true⟩ := by
  rw [Document.ofText, h, Reading.foldl_tokens v hv]
  rfl

mutual

theorem isWhole_whole (j : Json) : (whole j).isWhole = true := by
  match j with
  | .null => rfl
  | .bool _ => rfl
  | .number _ => rfl
  | .string _ => rfl
  | .array items => exact allWhole_wholeItems items
  | .object members => exact allMembersWhole_wholeMembers members

theorem allWhole_wholeItems (items : List Json) : Partial.allWhole (wholeItems items) = true := by
  match items with
  | [] => rfl
  | v :: rest =>
    rw [wholeItems, Partial.allWhole, isWhole_whole v, allWhole_wholeItems rest]
    rfl

theorem allMembersWhole_wholeMembers (members : List (String × Json)) :
    Partial.allMembersWhole (wholeMembers members) = true := by
  match members with
  | [] => rfl
  | (_, v) :: rest =>
    rw [wholeMembers, Partial.allMembersWhole, isWhole_whole v, allMembersWhole_wholeMembers rest]
    rfl

end

mutual

/-- A value whose numbers a text can hold. -/
def Fits : Json → Prop
  | .number n => n.Fits
  | .array items => FitItems items
  | .object members => FitMembers members
  | _ => True

def FitItems : List Json → Prop
  | [] => True
  | v :: rest => Fits v ∧ FitItems rest

def FitMembers : List (String × Json) → Prop
  | [] => True
  | (_, v) :: rest => Fits v ∧ FitMembers rest

end

mutual

def depth : Json → Nat
  | .array items => depthItems items + 1
  | .object members => depthMembers members + 1
  | _ => 0

def depthItems : List Json → Nat
  | [] => 0
  | v :: rest => max (depth v) (depthItems rest)

def depthMembers : List (String × Json) → Nat
  | [] => 0
  | (_, v) :: rest => max (depth v) (depthMembers rest)

end

theorem fitItems_iff {items : List Json} : FitItems items ↔ ∀ v ∈ items, v.Fits := by
  induction items with
  | nil => simp [FitItems]
  | cons v rest ih => rw [FitItems, ih, List.forall_mem_cons]

theorem depthItems_le {items : List Json} {n : Nat} (h : ∀ v ∈ items, v.depth ≤ n) :
    depthItems items ≤ n := by
  induction items with
  | nil => exact Nat.zero_le n
  | cons v rest ih =>
    obtain ⟨hv, hrest⟩ := List.forall_mem_cons.mp h
    exact Nat.max_le.mpr ⟨hv, ih hrest⟩

mutual

/-- The value of a tree made from a value is that value. -/
theorem value?_whole (j : Json) (hj : j.Fits) {limit : Nat} (hd : j.depth ≤ limit) :
    (whole j).value? limit = some j := by
  match j, hj with
  | .null, _ => rfl
  | .bool _, _ => rfl
  | .number (.integer _), _ => rfl
  | .number (.float x), h => exact if_pos h
  | .string _, _ => rfl
  | .array items, h =>
    rw [depth] at hd
    have hitems := items?_wholeItems items h (Nat.le_sub_one_of_lt hd)
    rw [whole, Partial.value?, if_neg (by omega), hitems, Option.map_some]
  | .object members, h =>
    rw [depth] at hd
    have hmembers := members?_wholeMembers members h (Nat.le_sub_one_of_lt hd)
    rw [whole, Partial.value?, if_neg (by omega), hmembers, Option.map_some]

theorem items?_wholeItems (items : List Json) (h : FitItems items) {limit : Nat}
    (hd : depthItems items ≤ limit) : Partial.items? limit (wholeItems items) = some items := by
  match items, h with
  | [], _ => rfl
  | v :: rest, h =>
    rw [depthItems, Nat.max_le] at hd
    rw [wholeItems, Partial.items?, value?_whole v h.1 hd.1, items?_wholeItems rest h.2 hd.2]
    rfl

theorem members?_wholeMembers (members : List (String × Json)) (h : FitMembers members)
    {limit : Nat} (hd : depthMembers members ≤ limit) :
    Partial.members? limit (wholeMembers members) = some members := by
  match members, h with
  | [], _ => rfl
  | (key, v) :: rest, h =>
    rw [depthMembers, Nat.max_le] at hd
    rw [wholeMembers, Partial.members?, value?_whole v h.1 hd.1,
      members?_wholeMembers rest h.2 hd.2]
    rfl

end

namespace Partial

/-- The values right inside a container. -/
def children : Partial → List Partial
  | .array items => items
  | .object members => members.map Prod.snd
  | _ => []

/-- A number that stands somewhere in a tree. -/
inductive Shows (n : Number) : Partial → Prop
  | number : Shows n (.number n)
  | child {v w : Partial} (hw : w ∈ v.children) (h : Shows n w) : Shows n v

theorem shows_iff {n : Number} {v : Partial} :
    Shows n v ↔ v = .number n ∨ ∃ w ∈ v.children, Shows n w := by
  constructor
  · intro h
    cases h with
    | number => exact .inl rfl
    | child hw h => exact .inr ⟨_, hw, h⟩
  · rintro (rfl | ⟨w, hw, h⟩)
    · exact .number
    · exact .child hw h

end Partial

namespace Reading

open Partial (Shows shows_iff children)

def held : Frame → List Partial
  | .array items => items
  | .object members _ => members.map Prod.snd

/-- A number that stands in the containers under way. -/
def Holds (n : Number) (frames : List Frame) : Prop := ∃ f ∈ frames, ∃ v ∈ held f, Shows n v

/-- A number that stands in what has been read so far. -/
def Shown (n : Number) : Reading → Prop
  | .under _ frames => Holds n frames
  | .finished document => document.root.Shows n

variable {n : Number} {frames : List Frame}

theorem holds_cons {f : Frame} :
    Holds n (f :: frames) ↔ (∃ v ∈ held f, Shows n v) ∨ Holds n frames := by
  simp only [Holds, List.mem_cons, exists_eq_or_imp]

theorem shows_array {items : List Partial} :
    Shows n (.array items.reverse) ↔ ∃ v ∈ items, Shows n v := by
  simp [shows_iff (v := .array items.reverse), children]

theorem shows_object {members : List (Option String × Partial)} :
    Shows n (.object members.reverse) ↔ ∃ v ∈ members.map Prod.snd, Shows n v := by
  simp [shows_iff (v := .object members.reverse), children]

/-- Putting a finished value into its container shows no other numbers. -/
theorem shown_put {v : Partial} (h : Shown n (put v frames)) : v.Shows n ∨ Holds n frames := by
  match frames with
  | [] => exact .inl h
  | .array items :: rest =>
    simpa only [put, Shown, holds_cons, held, List.mem_cons, exists_eq_or_imp, or_assoc] using h
  | .object members key :: rest =>
    simpa only [put, Shown, holds_cons, held, List.map_cons, List.mem_cons, exists_eq_or_imp,
      or_assoc] using h

theorem shows_close {v : Partial} (h : (close v frames).Shows n) : v.Shows n ∨ Holds n frames := by
  induction frames generalizing v with
  | nil => exact .inl h
  | cons f rest ih =>
    cases f with
    | array items =>
      have hrest := ih h
      rw [shows_array] at hrest
      simpa only [holds_cons, held, List.mem_cons, exists_eq_or_imp, or_assoc] using hrest
    | object members key =>
      have hrest := ih h
      rw [shows_object] at hrest
      simpa only [holds_cons, held, List.map_cons, List.mem_cons, exists_eq_or_imp, or_assoc]
        using hrest

theorem not_shows_broken : ¬ Shows n .broken := by simp [shows_iff (v := .broken), children]

theorem holds_of_breakOff {place : Place} (h : (breakOff place frames).root.Shows n) :
    Holds n frames := by
  unfold breakOff at h
  split at h
  · exact (shows_close h).resolve_left not_shows_broken
  · exact (shows_close h).resolve_left not_shows_broken
  · next members key rest _ _ =>
    have hrest := (shows_close h).resolve_left not_shows_broken
    rw [holds_cons] at hrest ⊢
    exact hrest
  · exact (shows_close h).resolve_left not_shows_broken

/-- A value that is no container shows a number only if it is that number. -/
theorem shown_put_bare {v : Partial} (hv : children v = []) (h : Shown n (put v frames)) :
    v = .number n ∨ Holds n frames := by
  rcases shown_put h with h | h
  · exact .inl (by simpa [hv] using shows_iff.mp h)
  · exact .inr h

/-- Taking a value shows no number but that of its token. -/
theorem shown_takeValue {place : Place} {t : Token} (h : Shown n (takeValue place frames t)) :
    t = .number n ∨ Holds n frames := by
  unfold takeValue at h
  split at h
  · simpa using shown_put_bare rfl h
  · simpa using shown_put_bare rfl h
  · simpa using shown_put_bare rfl h
  · simpa using shown_put_bare rfl h
  · simpa [Shown, holds_cons, held] using h
  · simpa [Shown, holds_cons, held] using h
  · exact .inr (holds_of_breakOff h)

/-- A container that is closed shows what it held. -/
theorem holds_of_closed {v : Partial} {f : Frame} (hv : v.Shows n ↔ ∃ w ∈ held f, w.Shows n)
    (h : Shown n (put v frames)) : Holds n (f :: frames) :=
  holds_cons.mpr ((shown_put h).imp_left hv.mp)

/-- A token adds no number but its own. -/
theorem shown_take {r : Reading} {t : Token} (h : Shown n (take r t)) :
    t = .number n ∨ Shown n r := by
  unfold take at h
  split at h
  · exact .inr h
  · next place frames =>
    -- one case for each pair of a place and a token that goes there, the break last
    split at h
    · exact shown_takeValue h
    · exact .inr (holds_of_closed shows_array h)
    · exact shown_takeValue h
    · exact .inr h
    · exact .inr (holds_of_closed shows_array h)
    · exact .inr (holds_of_closed shows_object h)
    · exact .inr (by simpa only [Shown, holds_cons, held] using h)
    · exact .inr (by simpa only [Shown, holds_cons, held] using h)
    · exact .inr h
    · exact .inr h
    · exact .inr (holds_of_closed shows_object h)
    · exact .inr (holds_of_breakOff h)

/-- A number that tokens have shown stands in one of them or was shown before. -/
theorem shown_foldl {tokens : List Token} {r : Reading} (h : Shown n (tokens.foldl take r)) :
    .number n ∈ tokens ∨ Shown n r := by
  induction tokens generalizing r with
  | nil => exact .inr h
  | cons t rest ih =>
    rcases ih h with h | h
    · exact .inl (List.mem_cons_of_mem _ h)
    · rcases shown_take h with rfl | h
      · exact .inl List.mem_cons_self
      · exact .inr h

theorem shown_stop {r : Reading} (h : r.stop.root.Shows n) : Shown n r := by
  cases r with
  | finished document => exact h
  | under place frames => exact holds_of_breakOff h

end Reading

/-- Every number in the tree of a text is a number of the text. -/
theorem Document.mem_tokens_of_shows {cs : List Char} {n : Number}
    (h : (Document.ofText cs).root.Shows n) : .number n ∈ Token.ofText cs := by
  have hstart : ¬ Reading.Shown n (.under .value []) := by simp [Reading.Shown, Reading.Holds]
  exact (Reading.shown_foldl (Reading.shown_stop h)).resolve_right hstart

end ClipGraph.Json
