import Bytecode.Proofs.Json.Skipped
import Mathlib.Data.List.Nodup

/-!
# Records from their content

A record is read the same from all texts that say the same of its fields. A slot is a field together
with the texts of its values; what a draft holds is said slot by slot (`Gives`), whatever the order
of the members and whatever stands between them, or in the order of the fields (`GivesInOrder`).
Either way the record is that of the draft (`Lawful.reads`).

While members are read, every slot either is still owed its value by the members to come, or has
what it is to have and none of them says anything of it (`Slot.Owed`).
-/

namespace Bytecode.Json

/-! ## Scalars -/

/-- `d` reads every text of a value as that value. -/
def Decoder.Accepts (d : Decoder α) (P : α → List UInt8 → Prop) : Prop :=
  ∀ a text, P a text → d.Reads text a

namespace Decoder

theorem accepts_text : text.Accepts StringText := by
  intro s t h
  obtain ⟨body, rfl, hbody⟩ := h.quotes
  exact reads_string hbody rfl

theorem reads_boolean {b : Bool} {text : List UInt8} (h : BooleanText b text) :
    boolean.Reads text b := by
  obtain rfl := h
  have hstarts : Starts (if b then 0x74 :: trueTail else 0x66 :: falseTail) := by
    cases b
    · exact ⟨0x66, falseTail, rfl, rfl⟩
    · exact ⟨0x74, trueTail, rfl, rfl⟩
  refine ⟨hstarts, ?_⟩
  intro ws rest hws _
  show runBoolean .complete _ = _
  rw [runBoolean, hstarts.skipBlank_eq hws]
  cases b
  · exact congrArg (Except.map _) (readWord_append .complete falseTail rest)
  · exact congrArg (Except.map _) (readWord_append .complete trueTail rest)

theorem reads_integer {expected : String} {low high n : Int} {text : List UInt8}
    (h : IntegerText n text) (hlow : low ≤ n) (hhigh : n ≤ high)
    (hsmall : -0x8000000000000000 ≤ n) (hlarge : n < 0x10000000000000000) :
    (integer expected low high).Reads text n := by
  obtain rfl := h
  exact reads_number hsmall hlarge (if_pos ⟨hlow, hhigh⟩)

theorem reads_null (d : Decoder α) : d.nullable.Reads nullText none := by
  have hstarts : Starts nullText := ⟨0x6E, nullTail, rfl, rfl⟩
  refine ⟨hstarts, ?_⟩
  intro ws rest hws _
  show runNullable d .complete _ = _
  rw [runNullable, hstarts.skipBlank_eq hws]
  exact congrArg (Except.map _) (readWord_append .complete nullTail rest)

/-- Where no text of a value is taken for `null`, there may be `null` for none. -/
theorem Accepts.nullable {d : Decoder α} {P : α → List UInt8 → Prop} (h : d.Accepts P)
    (hnull : ∀ a text, P a text → text.head? ≠ some 0x6E) :
    d.nullable.Accepts (NullableText P) := by
  intro a text ha
  cases a with
  | none =>
    obtain rfl := ha
    exact reads_null d
  | some a => exact (h a text ha).nullable (hnull a text ha)

theorem Accepts.list {d : Decoder α} {P : α → List UInt8 → Prop} (h : d.Accepts P) :
    d.list.Accepts (ListText P) := by
  rintro as text ⟨items, inner, hitems, hsep, rfl⟩
  refine reads_list hsep (List.Forall₂.flip ?_)
  exact hitems.imp fun a item ha => h a item ha

end Decoder

/-- A document that is one of the texts, with white space around it. -/
def DocumentText (P : List UInt8 → Prop) (source : Source) : Prop :=
  ∃ before text after, Blanks before ∧ Blanks after ∧ P text ∧
    source = ⟨before ++ (text ++ after), .complete⟩

theorem Decoder.Accepts.document {d : Decoder α} {P : α → List UInt8 → Prop} (h : d.Accepts P)
    {a : α} {source : Source} (hsource : DocumentText (P a) source) :
    d.document source = .ok a := by
  obtain ⟨before, text, after, hbefore, hafter, htext, rfl⟩ := hsource
  exact document_of_reads (h a text htext) hbefore hafter

/-! ## Members -/

/-- A member is its quoted name, a colon among white space, and its value. -/
theorem MemberText.eq_key {m : String × List UInt8} {text : List UInt8} (h : MemberText m text) :
    ∃ key after, Names key m.1 ∧ Blanks after ∧ text = 0x22 :: (key ++ (after ++ m.2)) := by
  obtain ⟨name, before, after, hname, hbefore, hafter, rfl⟩ := h
  obtain ⟨body, rfl, hbody⟩ := hname.quotes
  exact ⟨_, after, ⟨body, before, hbody, hbefore, rfl⟩, hafter, by simp⟩

/-- An object of one member of a known name is read as its content is. -/
theorem Decoder.reads_variants_text {known : List (String × Decoder α)} {name : String}
    {d : Decoder α} (hknown : known.lookup name = some d) {content text : List UInt8} {a : α}
    (htext : ObjectText [(name, content)] text) (h : d.Reads content a) :
    (variants known).Reads text a := by
  obtain ⟨items, inner, hitems, hsep, rfl⟩ := htext
  obtain ⟨item, _, hitem, hnil, rfl⟩ := List.forall₂_cons_left_iff.mp hitems
  cases hnil
  obtain ⟨key, before, hkey, hbefore, rfl⟩ := hitem.eq_key
  cases hsep with
  | last hlead hafter =>
    have hread := reads_variants hknown hkey hlead hbefore hafter h
    simpa using hread

/-- What an object has for a name. -/
def valuesOf (name : String) (ms : List (String × β)) : List β :=
  (ms.filter (·.1 = name)).map (·.2)

theorem valuesOf_cons_eq {name : String} {m : String × β} (h : m.1 = name)
    (ms : List (String × β)) : valuesOf name (m :: ms) = m.2 :: valuesOf name ms := by
  rw [valuesOf, List.filter_cons_of_pos (by simpa using h)]
  rfl

theorem valuesOf_cons_ne {name : String} {m : String × β} (h : m.1 ≠ name)
    (ms : List (String × β)) : valuesOf name (m :: ms) = valuesOf name ms := by
  rw [valuesOf, List.filter_cons_of_neg (by simpa using h)]
  rfl

/-! ## Slots -/

/-- A field of a record with drafts of type `σ`, and the texts of its values. -/
structure Slot (σ : Type) where
  {β : Type}
  name : String
  get : σ → Option β
  set : β → σ → σ
  decoder : Decoder β
  text : β → List UInt8 → Prop

variable {σ α : Type} {slots : List (Slot σ)} {blank d : σ}

def Slot.field (s : Slot σ) : Field σ := .of s.name s.get s.set s.decoder

@[simp] theorem Slot.name_field (s : Slot σ) : s.field.name = s.name := rfl

@[simp] theorem Slot.isSet_field (s : Slot σ) (draft : σ) :
    s.field.isSet draft = (s.get draft).isSome := rfl

/-- What the members say of each field is what the draft holds of it, and that is said once. The
other members have any values. -/
structure Gives (slots : List (Slot σ)) (d : σ) (ms : List (String × List UInt8)) : Prop where
  known : ∀ s ∈ slots, List.Forall₂ s.text (s.get d).toList (valuesOf s.name ms)
  other : ∀ m ∈ ms, (∀ s ∈ slots, s.name ≠ m.1) → WellFormed m.2

/-- The items are texts of what the draft holds, one for each field. -/
def GivesInOrder (slots : List (Slot σ)) (d : σ) (items : List (List UInt8)) : Prop :=
  List.Forall₂ (fun s item => ∃ b, s.get d = some b ∧ s.text b item) slots items

/-- A text that gives a draft: an object in any order, or a list in the order of the fields. -/
inductive DraftText (slots : List (Slot σ)) (d : σ) : List UInt8 → Prop
  | object {ms text} : Gives slots d ms → ObjectText ms text → DraftText slots d text
  | list {items inner} : GivesInOrder slots d items → Separated items inner →
      DraftText slots d (0x5B :: (inner ++ [0x5D]))

/-- The slots are told apart by their names, and a draft is no more than what its slots hold. -/
structure Lawful (slots : List (Slot σ)) (blank : σ) : Prop where
  names : (slots.map (·.name)).Nodup
  accepts : ∀ s ∈ slots, s.decoder.Accepts s.text
  get_blank : ∀ s ∈ slots, s.get blank = none
  get_set : ∀ s ∈ slots, ∀ b d, s.get (s.set b d) = some b
  get_set_ne : ∀ s ∈ slots, ∀ t ∈ slots, s.name ≠ t.name → ∀ b d, t.get (s.set b d) = t.get d
  ext : ∀ d d', (∀ s ∈ slots, s.get d = s.get d') → d = d'

namespace Lawful

theorem eq_of_name (h : Lawful slots blank) {s t : Slot σ} (hs : s ∈ slots) (ht : t ∈ slots)
    (hname : s.name = t.name) : s = t :=
  List.inj_on_of_nodup_map h.names hs ht hname

theorem find?_name (h : Lawful slots blank) {s : Slot σ} (hs : s ∈ slots) :
    (slots.map Slot.field).find? (fun f => f.name = s.name) = some s.field := by
  rw [List.find?_map]
  cases hfind : slots.find? ((fun f : Field σ => decide (f.name = s.name)) ∘ Slot.field) with
  | none => exact absurd (List.find?_eq_none.mp hfind s hs) (by simp)
  | some t =>
    have hmatch := List.find?_some hfind
    have hname : t.name = s.name := of_decide_eq_true hmatch
    rw [h.eq_of_name (List.mem_of_find?_eq_some hfind) hs hname]
    rfl

theorem find?_other {name : String} (hother : ∀ s ∈ slots, s.name ≠ name) :
    (slots.map Slot.field).find? (fun f => f.name = name) = none := by
  rw [List.find?_eq_none]
  intro f hf
  obtain ⟨s, hs, rfl⟩ := List.mem_map.mp hf
  exact fun e => hother s hs (of_decide_eq_true e)

/-- The field of a slot reads a text as the step that puts the value into a draft. -/
theorem reads_field (h : Lawful slots blank) {s : Slot σ} (hs : s ∈ slots) {b : s.β}
    {text : List UInt8} (hb : s.text b text) : s.field.value.Reads text (s.set b) :=
  (h.accepts s hs b text hb).map s.set

end Lawful

/-! ## From an object -/

/-- The slot of a draft is to become that of `d`, and the members to come are all it lacks. -/
def Slot.Owed (s : Slot σ) (draft d : σ) (ms : List (String × List UInt8)) : Prop :=
  (s.get draft = none ∧ List.Forall₂ s.text (s.get d).toList (valuesOf s.name ms)) ∨
    (s.get draft = s.get d ∧ valuesOf s.name ms = [])

/-- Nothing is missing before the end. -/
theorem Slot.Owed.get_eq {s : Slot σ} {draft d : σ} (h : s.Owed draft d []) :
    s.get draft = s.get d := by
  rcases h with ⟨hnone, htexts⟩ | ⟨heq, -⟩
  · cases hd : s.get d with
    | none => rw [hnone]
    | some b =>
      rw [hd] at htexts
      cases htexts
  · exact heq

/-- A member of the slot's name is the one that was owed. -/
theorem Slot.Owed.of_cons {s : Slot σ} {draft d : σ} {m : String × List UInt8}
    {ms : List (String × List UInt8)} (h : s.Owed draft d (m :: ms)) (hm : m.1 = s.name) :
    s.get draft = none ∧ ∃ b, s.get d = some b ∧ s.text b m.2 ∧ valuesOf s.name ms = [] := by
  rw [Slot.Owed, valuesOf_cons_eq hm] at h
  rcases h with ⟨hnone, htexts⟩ | ⟨-, hnil⟩
  · obtain ⟨b, bs, hb, hrest, hget⟩ := List.forall₂_cons_right_iff.mp htexts
    cases hd : s.get d with
    | none =>
      rw [hd] at hget
      cases hget
    | some b' =>
      rw [hd] at hget
      cases hget
      cases hm : valuesOf s.name ms with
      | nil => exact ⟨hnone, b, rfl, hb, rfl⟩
      | cons t ts =>
        rw [hm] at hrest
        cases hrest
  · cases hnil

theorem Lawful.fillsAll (h : Lawful slots blank) {ms : List (String × List UInt8)}
    {items : List (List UInt8)} (hitems : List.Forall₂ MemberText ms items)
    (hother : ∀ m ∈ ms, (∀ s ∈ slots, s.name ≠ m.1) → WellFormed m.2) {draft : σ}
    (howed : ∀ s ∈ slots, s.Owed draft d ms) :
    Record.FillsAll (slots.map Slot.field) items draft d := by
  induction hitems generalizing draft with
  | nil =>
    rw [h.ext draft d fun s hs => (howed s hs).get_eq]
    exact .nil
  | @cons m item ms items hm _ ih =>
    have hrest := fun n hn => hother n (List.mem_cons_of_mem _ hn)
    obtain ⟨key, before, hkey, hbefore, rfl⟩ := hm.eq_key
    by_cases hname : ∃ s ∈ slots, s.name = m.1
    · obtain ⟨s, hs, hsm⟩ := hname
      obtain ⟨hfree, b, hget, hb, hnil⟩ := (howed s hs).of_cons hsm.symm
      have hset : (s.field).isSet draft = false := by simp [hfree]
      refine .cons (Record.fills_known hkey hbefore (hsm ▸ h.find?_name hs) hset
        (h.reads_field hs hb)) (ih hrest ?_)
      intro t ht
      by_cases hts : t.name = s.name
      · obtain rfl := h.eq_of_name ht hs hts
        exact Or.inr ⟨by rw [h.get_set t ht, hget], hnil⟩
      · have hold := howed t ht
        rw [Slot.Owed, valuesOf_cons_ne fun e => hts (e.symm.trans hsm.symm)] at hold
        rwa [Slot.Owed, h.get_set_ne s hs t ht (Ne.symm hts)]
    · have hnone : ∀ s ∈ slots, s.name ≠ m.1 := fun s hs e => hname ⟨s, hs, e⟩
      have hskip := (hother m List.mem_cons_self hnone).skipped
      refine .cons (Record.fills_unknown draft hkey hbefore (Lawful.find?_other hnone) hskip)
        (ih hrest ?_)
      intro t ht
      have hold := howed t ht
      rwa [Slot.Owed, valuesOf_cons_ne (Ne.symm (hnone t ht))] at hold

/-! ## From a list -/

namespace Record

/-- Items that take a draft to another one, each by the field in its place. -/
inductive FillsInOrder : List (Field σ) → List (List UInt8) → σ → σ → Prop
  | nil {draft} : FillsInOrder [] [] draft draft
  | cons {field fields item items set draft draft'} : field.value.Reads item set →
      FillsInOrder fields items (set draft) draft' →
      FillsInOrder (field :: fields) (item :: items) draft draft'

theorem runInOrder_step {field : Field σ} {fields : List (Field σ)} {count : Nat} {draft : σ}
    {s t r : List UInt8} {set : σ → σ} (hs : nextItem .complete (count = 0) s = .ok (some t))
    (hrun : field.value.run .complete t = .ok (set, r)) :
    runInOrder .complete (field :: fields) count draft s =
      runInOrder .complete fields (count + 1) (set draft) r := by
  simp only [runInOrder, hs, hrun]

/-- From where the first of some items is found, all of them work on the draft, up to the white
space before the bracket. -/
theorem runInOrder_separated {items : List (List UInt8)} {text : List UInt8}
    (hsep : Separated items text) (hne : items ≠ []) {fields : List (Field σ)} {draft draft' : σ}
    (h : FillsInOrder fields items draft draft') (rest : List UInt8) {count : Nat}
    {s : List UInt8}
    (hs : nextItem .complete (count = 0) s = nextItem .complete true (text ++ 0x5D :: rest)) :
    ∃ ws n, Blanks ws ∧
      runInOrder .complete fields count draft s = .ok (draft', n, ws ++ 0x5D :: rest) := by
  have hbracket : Delimited (0x5D :: rest) := delimited_cons rfl rest
  induction hsep generalizing fields draft count s with
  | none hws => exact absurd rfl hne
  | @last before item after hbefore hafter =>
    obtain _ | ⟨hitem, hnil⟩ := h
    cases hnil
    have hrun := hitem.run [] _ blanks_nil (hbracket.after_blanks hafter)
    rw [List.append_assoc, List.append_assoc, nextItem_first hitem.starts hbefore] at hs
    exact ⟨after, count + 1, hafter, runInOrder_step hs hrun⟩
  | @more before item after next items text hbefore hafter hrest ih =>
    obtain _ | ⟨hitem, htail⟩ := h
    have hnext : Starts next := by
      obtain _ | ⟨hnext, -⟩ := htail
      exact hnext.starts
    have hcomma : Delimited (0x2C :: (text ++ 0x5D :: rest)) := delimited_cons rfl _
    have hrun := hitem.run [] _ blanks_nil (hcomma.after_blanks hafter)
    simp only [List.append_assoc, List.cons_append] at hs
    rw [nextItem_first hitem.starts hbefore] at hs
    rw [runInOrder_step hs hrun]
    exact ih (by simp) htail (nextItem_comma hrest hnext hafter _)

/-- A list of which the items fill a draft is read as the record of the draft. -/
theorem reads_array {rc : Record σ α} {items : List (List UInt8)} {text : List UInt8}
    (hsep : Separated items text) {draft : σ} (h : FillsInOrder rc.fields items rc.blank draft)
    {a : α} (hfinish : rc.finish draft = .ok a) :
    rc.decoder.Reads (0x5B :: (text ++ [0x5D])) a := by
  refine ⟨⟨0x5B, _, rfl, rfl⟩, ?_⟩
  intro ws rest hws _
  have hitems : ∃ left n, Blanks left ∧ runInOrder .complete rc.fields 0 rc.blank
      (text ++ 0x5D :: rest) = .ok (draft, n, left ++ 0x5D :: rest) := by
    by_cases hne : items = []
    · subst hne
      generalize rc.fields = fields at h
      cases h
      cases hsep with
      | none htext => exact ⟨text, 0, htext, rfl⟩
    · exact runInOrder_separated hsep hne h rest rfl
  obtain ⟨left, n, hleft, hrun⟩ := hitems
  have hclose : closeList .complete (left ++ 0x5D :: rest) = .ok rest := by
    rw [closeList, skipBlank_token hleft rfl]
    rfl
  show rc.run .complete _ = _
  unfold run
  rw [List.cons_append, skipBlank_token hws rfl, List.append_assoc]
  simp only [↓reduceIte, List.singleton_append, fromList, hrun, hfinish, hclose]
  rfl

end Record

theorem Lawful.fillsInOrder (h : Lawful slots blank) {todo : List (Slot σ)}
    {items : List (List UInt8)} (hitems : GivesInOrder todo d items) (htodo : todo ⊆ slots)
    {draft : σ} (hdone : ∀ s ∈ slots, s ∈ todo ∨ s.get draft = s.get d) :
    Record.FillsInOrder (todo.map Slot.field) items draft d := by
  induction hitems generalizing draft with
  | nil =>
    rw [h.ext draft d fun s hs => (hdone s hs).resolve_left (by simp)]
    exact .nil
  | @cons s item todo items hitem _ ih =>
    obtain ⟨b, hget, hb⟩ := hitem
    have hs : s ∈ slots := htodo List.mem_cons_self
    refine .cons (h.reads_field hs hb) (ih (fun t ht => htodo (List.mem_cons_of_mem _ ht)) ?_)
    intro t ht
    by_cases hts : s.name = t.name
    · obtain rfl := h.eq_of_name hs ht hts
      exact Or.inr (by rw [h.get_set s hs, hget])
    · rw [h.get_set_ne s hs t ht hts]
      refine (hdone t ht).imp_left fun hmem => (List.mem_cons.mp hmem).resolve_left ?_
      rintro rfl
      exact hts rfl

/-! ## From either -/

/-- **A record is read by its content**, from each text that gives its draft. -/
theorem Lawful.reads {rc : Record σ α} (h : Lawful slots rc.blank)
    (hfields : rc.fields = slots.map Slot.field) {text : List UInt8}
    (htext : DraftText slots d text) {a : α} (hfinish : rc.finish d = .ok a) :
    rc.decoder.Reads text a := by
  cases htext with
  | @object ms text hgives hobject =>
    obtain ⟨items, inner, hitems, hsep, rfl⟩ := hobject
    have hfills := h.fillsAll hitems hgives.other fun s hs =>
      Or.inl ⟨h.get_blank s hs, hgives.known s hs⟩
    exact Record.reads_object hsep (hfields ▸ hfills) hfinish
  | @list items inner hitems hsep =>
    have hfills : Record.FillsInOrder (slots.map Slot.field) items rc.blank d :=
      h.fillsInOrder hitems (List.Subset.refl _) fun s hs => Or.inl hs
    exact Record.reads_array hsep (hfields ▸ hfills) hfinish

end Bytecode.Json
