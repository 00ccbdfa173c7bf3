import ClipGraph.Proofs.JsonEdits

/-!
# Records whatever their layout

A record is read member by member. Each of its fields has a slot, which is filled once by the member
of its name. Slots do not touch each other, so two members may change places, and a member that no
slot is there for only has to be JSON. A record may also be an array, whose items fill the slots in
order.
-/

namespace ClipGraph.Json

variable {α β σ : Type}

/-- A reader that gives the same answer, or none at all, before and after an edit. -/
def Reader.Ignores (r : Reader α) (kept : Bool) (f : Form) (depth : Nat) : Prop :=
  ∀ v w, Edit kept f depth v w → (r v).toOption = (r w).toOption

/-- A field of a record under way: where its value goes and how it is read. -/
structure Slot (σ : Type) where
  {α : Type}
  name : String
  get : σ → Option α
  set : σ → Option α → σ
  read : Reader α
  get_set : ∀ s x, get (set s x) = x

namespace Slot

/-- Slots that do not touch each other. -/
@[mk_iff]
structure Apart (j k : Slot σ) : Prop where
  names_ne : j.name ≠ k.name
  get_set_left : ∀ s x, k.get (j.set s x) = k.get s
  get_set_right : ∀ s x, j.get (k.set s x) = j.get s
  set_set : ∀ s x y, k.set (j.set s x) y = j.set (k.set s y) x

instance : Std.Symm (Apart (σ := σ)) where
  symm _ _ h :=
    ⟨h.names_ne.symm, h.get_set_right, h.get_set_left, fun s x y => (h.set_set s y x).symm⟩

def take (k : Slot σ) (s : σ) (key : String) (v : Partial) : Except Fault (Option σ) :=
  (Reader.once key (k.get s) (k.read v)).map fun x => some (k.set s x)

def takeAny : List (Slot σ) → σ → String → Partial → Except Fault (Option σ)
  | [], _, _, _ => .ok none
  | k :: rest, s, key, v => if key = k.name then k.take s key v else takeAny rest s key v

/-- A slot that is filled, if it was not and there is an answer. -/
def fill (k : Slot σ) (s : σ) (v : Partial) : Option σ :=
  if (k.get s).isSome then none else (k.read v).toOption.map fun a => k.set s (some a)

theorem toOption_take (k : Slot σ) (s : σ) (key : String) (v : Partial) :
    (k.take s key v).toOption = (k.fill s v).map some := by
  unfold take fill Reader.once
  split
  · rfl
  · rw [toOption_map, toOption_map, Option.map_map, Option.map_map]
    rfl

/-- A slot is not filled twice. -/
theorem fill_fill_self (k : Slot σ) (s : σ) (v w : Partial) :
    (k.fill s v).bind (k.fill · w) = none := by
  unfold fill
  cases (k.read v).toOption <;> simp [k.get_set]

/-- Slots that do not touch each other may be filled in either order. -/
theorem fill_fill_comm {j k : Slot σ} (h : Apart j k) (s : σ) (v w : Partial) :
    (j.fill s v).bind (k.fill · w) = (k.fill s w).bind (j.fill · v) := by
  unfold fill
  cases hj : j.get s <;> cases hk : k.get s <;> cases (j.read v).toOption <;>
    cases (k.read w).toOption <;>
    simp [h.get_set_left, h.get_set_right, h.set_set, hj, hk]

/-- Puts a value into its slot. A value without one has to be whole. -/
def put (k : Option (Slot σ)) (s : σ) (v : Partial) : Option σ :=
  match k with
  | some k => k.fill s v
  | none => if v.isWhole then some s else none

def find? (slots : List (Slot σ)) (key : String) : Option (Slot σ) := slots.find? (·.name = key)

def step (slots : List (Slot σ)) (s : σ) (m : Option String × Partial) : Option σ :=
  m.1.bind fun key => put (find? slots key) s m.2

theorem toOption_takeAny (slots : List (Slot σ)) (s : σ) (key : String) (v : Partial) :
    (takeAny slots s key v).toOption =
      match find? slots key with
      | some k => (k.fill s v).map some
      | none => some none := by
  induction slots with
  | nil => rfl
  | cons k rest ih =>
    rw [takeAny, find?]
    by_cases h : key = k.name
    · rw [if_pos h, List.find?_cons_of_pos (by simp [h]), toOption_take]
    · rw [if_neg h, List.find?_cons_of_neg (by simpa using Ne.symm h), ih, find?]

/-- Reading the members of an object is folding `step` over them. -/
theorem toOption_foldMembers (slots : List (Slot σ)) (s : σ)
    (members : List (Option String × Partial)) :
    (Reader.foldMembers (takeAny slots) s members).toOption = members.foldlM (step slots) s := by
  induction members generalizing s with
  | nil => rfl
  | cons m rest ih =>
    match m with
    | (none, v) => rfl
    | (some key, v) =>
      rw [Reader.foldMembers, toOption_bind, toOption_takeAny, List.foldlM_cons, step,
        Option.bind_some]
      cases find? slots key with
      | some k =>
        dsimp only [put]
        cases k.fill s v with
        | none => rfl
        | some next => exact ih next
      | none =>
        dsimp only [put, Option.bind_some]
        cases v.isWhole with
        | false => rfl
        | true => exact ih s

variable {slots : List (Slot σ)}

/-- Two values may be put in either order, into slots or not. -/
theorem put_put_comm (h : slots.Pairwise Apart) {j k : Option (Slot σ)} (hj : ∀ i ∈ j, i ∈ slots)
    (hk : ∀ i ∈ k, i ∈ slots) (s : σ) (v w : Partial) :
    (put j s v).bind (put k · w) = (put k s w).bind (put j · v) := by
  match j, k with
  | none, none =>
    unfold put
    cases v.isWhole <;> cases w.isWhole <;> rfl
  | none, some k =>
    unfold put
    cases v.isWhole <;> simp
  | some j, none =>
    unfold put
    cases w.isWhole <;> simp
  | some j, some k =>
    by_cases hjk : j = k
    · -- the same slot twice is refused either way
      subst hjk
      exact (fill_fill_self j s v w).trans (fill_fill_self j s w v).symm
    · exact fill_fill_comm (h.forall (hj j rfl) (hk k rfl) hjk) s v w

/-- Two members may change places. -/
theorem step_step_comm (h : slots.Pairwise Apart) (s : σ) (m n : Option String × Partial) :
    (step slots s m).bind (step slots · n) = (step slots s n).bind (step slots · m) := by
  match m, n with
  | (none, _), (none, _) => rfl
  | (none, _), (some _, _) => simp [step]
  | (some _, _), (none, _) => simp [step]
  | (some a, v), (some b, w) =>
    exact put_put_comm h (fun _ => List.mem_of_find?_eq_some) (fun _ => List.mem_of_find?_eq_some)
      s v w

/-- Fills slots in order, and there has to be one for every value. -/
def fillRow : List (Slot σ) → σ → List Partial → Option σ
  | _, s, [] => some s
  | [], _, _ :: _ => none
  | k :: rest, s, v :: vs => (k.fill s v).bind fun s => fillRow rest s vs

/-- A row depends on an item only by what the slot at its place reads. -/
theorem fillRow_eq {before after : List Partial} {x y : Partial}
    (h : ∀ k ∈ slots[before.length]?, (k.read x).toOption = (k.read y).toOption) (s : σ) :
    fillRow slots s (before ++ x :: after) = fillRow slots s (before ++ y :: after) := by
  induction before generalizing slots s with
  | nil =>
    cases slots with
    | nil => rfl
    | cons k rest => simp only [List.nil_append, fillRow, fill, h k rfl]
  | cons v before ih =>
    cases slots with
    | nil => rfl
    | cons k rest =>
      have hrest := fun s => ih (by simpa using h) s
      simp only [List.cons_append, fillRow, hrest]

end Slot

/-- A record: its slots, what it is before they are filled, and what is made of it in the end. -/
structure Record (σ α : Type) where
  slots : List (Slot σ)
  empty : σ
  finish : σ → Except Fault α

namespace Record

variable {R : Record σ α} {kept : Bool} {fields all : List (String × Form)} {depth : Nat}

def ofMembers (R : Record σ α) (members : List (Option String × Partial)) : Except Fault α :=
  Reader.foldMembers (Slot.takeAny R.slots) R.empty members >>= R.finish

def ofItems (R : Record σ α) (items : List Partial) : Option α :=
  (Slot.fillRow R.slots R.empty items).bind fun s => (R.finish s).toOption

/-- The slots are for fields of the form, and what is read for them is read whatever its layout. -/
structure Suits (R : Record σ α) (kept : Bool) (fields : List (String × Form)) (depth : Nat) :
    Prop where
  apart : R.slots.Pairwise Slot.Apart
  named : ∀ k ∈ R.slots, k.name ∈ fields.map Prod.fst
  ignores : ∀ k ∈ R.slots, k.read.Ignores kept (.named fields (some k.name)) depth

/-- A member of a name that does not count is passed over. -/
theorem Suits.step_extra (h : R.Suits kept fields depth) {key : String}
    (hkey : key ∉ fields.map Prod.fst) {v : Partial} (hv : v.isWhole = true) (s : σ) :
    Slot.step R.slots s (some key, v) = some s := by
  have hfind : Slot.find? R.slots key = none := by
    rw [Slot.find?, List.find?_eq_none]
    rintro k hk hname
    exact hkey (of_decide_eq_true hname ▸ h.named k hk)
  rw [Slot.step, Option.bind_some, hfind, Slot.put, if_pos hv]

/-- A member does not depend on the layout of its value. -/
theorem Suits.step_change (h : R.Suits kept fields depth) {key : Option String} {v w : Partial}
    (hvw : Edit kept (.named fields key) depth v w) (s : σ) :
    Slot.step R.slots s (key, v) = Slot.step R.slots s (key, w) := by
  cases key with
  | none => rfl
  | some key =>
    cases hfind : Slot.find? R.slots key with
    | none => simp only [Slot.step, Option.bind_some, hfind, Slot.put, hvw.isWhole_iff]
    | some k =>
      obtain rfl : k.name = key := by simpa using List.find?_some hfind
      have hread := h.ignores k (List.mem_of_find?_eq_some hfind) v w hvw
      simp only [Slot.step, Option.bind_some, hfind, Slot.put, Slot.fill, hread]

/-- The members come to the same record before and after an edit. -/
theorem Suits.foldlM_step_eq (h : R.Suits kept fields depth) {ms ns : List (Option String × Partial)}
    (hedit : MemberEdit kept fields depth ms ns) (s : σ) :
    ms.foldlM (Slot.step R.slots) s = ns.foldlM (Slot.step R.slots) s := by
  cases hedit with
  | @swap before after m n =>
    simp only [List.foldlM_append, List.foldlM_cons, Option.bind_eq_bind]
    refine Option.bind_congr fun t _ => ?_
    rw [← Option.bind_assoc, Slot.step_step_comm h.apart, Option.bind_assoc]
  | extra hkey hwhole =>
    simp only [List.foldlM_append, List.foldlM_cons, h.step_extra hkey hwhole, Option.bind_eq_bind,
      Option.bind_some]
  | change hvw => simp only [List.foldlM_append, List.foldlM_cons, h.step_change hvw]

/-- What an object comes to does not depend on the layout of its members. -/
theorem Suits.ofMembers_eq (h : R.Suits kept fields depth) {ms ns : List (Option String × Partial)}
    (hedit : MemberEdit kept fields depth ms ns) :
    (R.ofMembers ms).toOption = (R.ofMembers ns).toOption := by
  rw [ofMembers, ofMembers, toOption_bind, toOption_bind, Slot.toOption_foldMembers,
    Slot.toOption_foldMembers, h.foldlM_step_eq hedit]

/-- What an array comes to does not depend on the layout of an item. -/
theorem Suits.ofItems_eq (h : R.Suits kept all depth)
    (hnames : R.slots.map Slot.name = fields.map Prod.fst) {before after : List Partial}
    {x y : Partial}
    (hedit : Edit kept (.named all (fields[before.length]?.map Prod.fst)) depth x y) :
    R.ofItems (before ++ x :: after) = R.ofItems (before ++ y :: after) := by
  have hread : ∀ k ∈ R.slots[before.length]?, (k.read x).toOption = (k.read y).toOption := by
    intro k hk
    have hname : fields[before.length]?.map Prod.fst = some k.name := by
      rw [← List.getElem?_map, ← hnames, List.getElem?_map, Option.mem_def.mp hk, Option.map_some]
    rw [hname] at hedit
    exact h.ignores k (List.mem_of_getElem? hk) x y hedit
  rw [ofItems, ofItems, Slot.fillRow_eq hread]

end Record

namespace Reader

variable {kept : Bool} {fields : List (String × Form)} {f : Form} {depth : Nat}

/-- A reader of words notices no edit, because it takes no container. -/
theorem ignores_of_no_container {r : Reader α} (hobject : ∀ ms, (r (.object ms)).toOption = none)
    (harray : ∀ items, (r (.array items)).toOption = none) : r.Ignores kept f depth := by
  intro v w h
  obtain ⟨ms, ns, rfl, rfl, -⟩ | ⟨before, after, x, y, rfl, rfl, -⟩ := h.cases_container
  · rw [hobject, hobject]
  · rw [harray, harray]

theorem ignores_word : word.Ignores kept f depth :=
  ignores_of_no_container (fun _ => rfl) fun _ => rfl

theorem ignores_textOr (wanted : String) : (textOr wanted).Ignores kept f depth :=
  ignores_of_no_container (fun _ => rfl) fun _ => rfl

theorem ignores_textOrNull : textOrNull.Ignores kept f depth :=
  ignores_of_no_container (fun _ => rfl) fun _ => rfl

theorem ignores_map {r : Reader α} (h : r.Ignores kept f depth) (g : α → β) :
    Reader.Ignores (fun v => (r v).map g) kept f depth := by
  intro v w hedit
  rw [toOption_map, toOption_map, h v w hedit]

/-- A list is read whatever the layout if its items are. -/
theorem ignores_listOf {r : Reader α} (h : r.Ignores kept f (depth - 1)) :
    (listOf r).Ignores kept (.list f) depth := by
  intro v w hedit
  obtain ⟨ms, ns, rfl, rfl, -⟩ | ⟨before, after, x, y, rfl, rfl, hxy⟩ := hedit.cases_container
  · rfl
  · simp only [listOf, List.mapM_append, List.mapM_cons, toOption_bind, h x y hxy]

/-- A record is read whatever its layout, as an object or as an array. -/
theorem ignores_record {r : Reader α} {R : Record σ α} (h : R.Suits kept fields (depth - 1))
    (hnames : R.slots.map Slot.name = fields.map Prod.fst)
    (hobject : ∀ members, r (.object members) = R.ofMembers members)
    (harray : ∀ items, (r (.array items)).toOption = R.ofItems items) :
    r.Ignores kept (.record fields) depth := by
  intro v w hvw
  obtain ⟨ms, ns, rfl, rfl, hedit⟩ | ⟨before, after, x, y, rfl, rfl, hedit⟩ := hvw.cases_container
  · rw [hobject, hobject, h.ofMembers_eq hedit]
  · rw [harray, harray, h.ofItems_eq hnames hedit]

@[simp] theorem toOption_require (name : String) (field : Option α) :
    (require name field).toOption = field := by
  cases field <;> rfl

@[simp] theorem toOption_tooShort (record : String) (fields length : Nat) :
    (tooShort record fields length : Except Fault α).toOption = none := rfl

@[simp] theorem toOption_tooLong (kept : Bool) (fields length : Nat) :
    (tooLong kept fields length : Except Fault α).toOption = none := rfl

section Pair

variable {whole : Bool} {record first second : String} {readFirst : Reader α} {readSecond : Reader β}
  {g : Form}

def pairRecord (first second : String) (readFirst : Reader α) (readSecond : Reader β) :
    Record (Option α × Option β) (α × β) where
  slots := [⟨first, Prod.fst, fun s x => (x, s.2), readFirst, fun _ _ => rfl⟩,
    ⟨second, Prod.snd, fun s x => (s.1, x), readSecond, fun _ _ => rfl⟩]
  empty := (none, none)
  finish s := do return (← require first s.1, ← require second s.2)

/-- A record of two fields is read member by member. -/
theorem pair_object_eq (members : List (Option String × Partial)) :
    pair whole record first second readFirst readSecond (.object members) =
      (pairRecord first second readFirst readSecond).ofMembers members := by
  have htake : (fun (s : Option α × Option β) (key : String) (v : Partial) =>
      if key = first then (once first s.1 (readFirst v)).map fun a => some (a, s.2)
      else if key = second then (once second s.2 (readSecond v)).map fun b => some (s.1, b)
      else .ok none) = Slot.takeAny (pairRecord first second readFirst readSecond).slots := by
    funext s key v
    simp only [pairRecord, Slot.takeAny, Slot.take]
    split
    · next h => rw [h]
    split
    · next h => rw [h]
    · rfl
  rw [pair, htake]
  rfl

theorem toOption_pair_array (items : List Partial) :
    (pair whole record first second readFirst readSecond (.array items)).toOption =
      (pairRecord first second readFirst readSecond).ofItems items := by
  match items with
  | [] => rfl
  | [a] | [a, b] =>
    simp [pair, pairRecord, Record.ofItems, Slot.fillRow, Slot.fill, Option.map_eq_bind,
      Option.bind_assoc]
  | a :: b :: c :: rest => simp [pair, pairRecord, Record.ofItems, Slot.fillRow]

/-- A record of two fields is read whatever the layout if its fields are. -/
theorem ignores_pair (hne : second ≠ first) (hf : readFirst.Ignores kept f (depth - 1))
    (hg : readSecond.Ignores kept g (depth - 1)) :
    (pair whole record first second readFirst readSecond).Ignores kept
      (.record [(first, f), (second, g)]) depth := by
  have hsuits : (pairRecord first second readFirst readSecond).Suits kept
      [(first, f), (second, g)] (depth - 1) := by
    refine ⟨?_, ?_, ?_⟩
    · simp [pairRecord, Slot.apart_iff, hne.symm]
    · simp [pairRecord]
    · have hlookup : (second == first) = false := beq_false_of_ne hne
      simpa [pairRecord, Form.named, List.lookup_cons, hlookup] using ⟨hf, hg⟩
  exact ignores_record hsuits rfl pair_object_eq toOption_pair_array

end Pair

end Reader
end ClipGraph.Json
