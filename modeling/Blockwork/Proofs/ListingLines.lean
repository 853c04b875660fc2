import Blockwork.Diagnostic.Rendering
import Blockwork.Proofs.JsonNumbers
import Blockwork.Proofs.Listings
import Blockwork.Text.Lines
import Mathlib.Data.String.Basic

/-!
# The lines of a listing

A listing ends a line behind each block, but it shows texts as they are. A label, a choice or a
literal that has a line break in it takes the block across lines, and moves all blocks behind it
down. The lines of a listing are counted here for all chains, and with them the numbers by which a
diagnostic names the line of a block. There is one line for each block just when no text that is
shown has a line break.

## Main statements

* `Registry.breaks_render_iff`: when a block is shown across lines.
* `Chain.length_lines`: how many lines a listing has.
* `Chain.lines_of_span`: on which lines a block stands.
* `Chain.one_line_each`: when the lines of a listing are those of its blocks, one to one.
-/

namespace Blockwork

/-! ## Line breaks -/

/-- How often a text breaks its line. -/
def lineBreaks (s : String) : Nat := s.toList.count '\n'

/-- Whether a text goes over more than one line. -/
def Breaks (s : String) : Prop := '\n' ∈ s.toList

instance (s : String) : Decidable (Breaks s) := inferInstanceAs (Decidable ('\n' ∈ s.toList))

theorem lineBreaks_append (s t : String) : lineBreaks (s ++ t) = lineBreaks s + lineBreaks t := by
  rw [lineBreaks, String.toList_append, List.count_append]
  rfl

theorem lineBreaks_eq_zero_iff {s : String} : lineBreaks s = 0 ↔ ¬Breaks s :=
  List.count_eq_zero

theorem breaks_append {s t : String} : Breaks (s ++ t) ↔ Breaks s ∨ Breaks t := by
  rw [Breaks, String.toList_append, List.mem_append]
  rfl

theorem not_breaks_of_inNumber {cs : List Char} (h : ∀ c ∈ cs, JsonLexer.inNumber c = true) :
    ¬Breaks (String.ofList cs) := by
  rw [Breaks, String.toList_ofList]
  intro among
  cases h '\n' among

theorem breaks_join {texts : List String} :
    Breaks (String.join texts) ↔ ∃ t ∈ texts, Breaks t := by
  rw [Breaks, String.toList_join, List.mem_flatMap]
  rfl

/-- A separator without a line break adds none. -/
theorem breaks_intercalate {separator : String} (h : ¬Breaks separator) {texts : List String} :
    Breaks (separator.intercalate texts) ↔ ∃ t ∈ texts, Breaks t := by
  induction texts with
  | nil => simp [Breaks]
  | cons s texts ih =>
    by_cases last : texts = []
    · subst last
      simp
    · rw [String.intercalate_cons_of_ne_nil last, breaks_append, breaks_append, ih]
      simp [h]

/-! ## Blocks -/

namespace Slot

/-- The texts that a slot adds to the heading of a procedure. -/
def headings (id : String) : Slot → List String
  | .text label => if label = id then [] else [label]
  | .argument name | .dropdown name _ => [name]
  | _ => []

/-- The texts that are shown for slots: their own, and those of the arguments that they hold. -/
def gather : List Slot → List (List String) → List String
  | [], _ => []
  | .text label :: slots, texts => label :: gather slots texts
  | .image asset :: slots, texts => asset :: gather slots texts
  | _ :: slots, held :: texts => held ++ gather slots texts
  | _ :: slots, [] => gather slots []

end Slot

/-- The texts that the heading of a procedure is made of. -/
def Definition.texts (d : Definition) : List String := d.id :: d.slots.flatMap (Slot.headings d.id)

namespace Registry

variable (r : Registry)

/-- The texts that are shown for a block, given those of its arguments. -/
def textsWith (definition : String) (texts : List (List String)) : List String :=
  match r.find? definition with
  | some d => Slot.gather d.slots texts
  | none => definition :: texts.flatten

mutual

/-- The texts that are shown for an argument. -/
def textsOfArgument : Argument → List String
  | .literal (.text s) => [s]
  | .literal _ => []
  | .choice name => [name]
  | .block definition arguments => textsWith r definition (textsOfArguments arguments)
  | .definition d => d.texts

/-- The texts that are shown for arguments. -/
def textsOfArguments : List Argument → List (List String)
  | [] => []
  | a :: rest => textsOfArgument a :: textsOfArguments rest

end

/-- The texts that are shown for a block. -/
def textsOf (b : Block) : List String := r.textsWith b.definition (r.textsOfArguments b.arguments)

end Registry

/-- Whether a text goes over more than one line just when one of the texts in it does. -/
def BreaksBy (shown : String) (texts : List String) : Prop := Breaks shown ↔ ∃ t ∈ texts, Breaks t

theorem BreaksBy.iff {shown : String} {texts : List String} (h : BreaksBy shown texts) :
    Breaks shown ↔ ∃ t ∈ texts, Breaks t :=
  h

theorem BreaksBy.enclosed {shown front behind : String} {texts : List String}
    (h : BreaksBy shown texts) (hfront : ¬Breaks front) (hbehind : ¬Breaks behind) :
    BreaksBy (front ++ shown ++ behind) texts := by
  rw [BreaksBy, breaks_append, breaks_append, or_iff_left hbehind, or_iff_right hfront, h.iff]

theorem not_breaks_plainText (x : Float) : ¬Breaks (plainText x) := by
  rw [plainText]
  cases Binary.ofFloat x with
  | nan => decide
  | infinite negative => cases negative <;> decide
  | finite negative mantissa exponent =>
    have spelled (d : Decimal) : ¬Breaks (String.ofList (d.positional false)) :=
      not_breaks_of_inNumber (d.spelled_positional false).goesOn
    show ¬Breaks ((if negative then "-" else "") ++ String.ofList (Decimal.positional _ false))
    rw [breaks_append, not_or]
    exact ⟨by cases negative <;> decide, spelled _⟩

/-- A number is shown on one line. -/
theorem not_breaks_display_number (x : Float) : ¬Breaks (Value.number x).display := by
  rw [Value.display]
  split
  · decide
  · exact not_breaks_plainText x

theorem Slot.breaksBy_heading (id : String) (slot : Slot) :
    BreaksBy (Definition.heading id slot) (slot.headings id) := by
  cases slot with
  | text label =>
    by_cases same : label = id
    · simp [BreaksBy, Definition.heading, headings, same, Breaks]
    · have blank : ¬Breaks " " := by decide
      simp [BreaksBy, Definition.heading, headings, same, breaks_append, blank]
  | image asset => simp [BreaksBy, Definition.heading, headings, Breaks]
  | definitionEditor => simp [BreaksBy, Definition.heading, headings, Breaks]
  | argument name =>
    refine BreaksBy.enclosed ?_ (by decide) (by decide)
    simp [BreaksBy, headings]
  | dropdown name choices =>
    refine BreaksBy.enclosed ?_ (by decide) (by decide)
    simp [BreaksBy, headings]

theorem Definition.breaksBy_signature (d : Definition) : BreaksBy d.signature d.texts := by
  rw [BreaksBy, signature, breaks_append, breaks_join, texts]
  have slots : (∃ t ∈ d.slots.map (heading d.id), Breaks t) ↔
      ∃ t ∈ d.slots.flatMap (Slot.headings d.id), Breaks t := by
    constructor
    · rintro ⟨t, among, breaks⟩
      obtain ⟨slot, inside, rfl⟩ := List.mem_map.mp among
      obtain ⟨t, held, breaks⟩ := (slot.breaksBy_heading d.id).mp breaks
      exact ⟨t, List.mem_flatMap.mpr ⟨slot, inside, held⟩, breaks⟩
    · rintro ⟨t, among, breaks⟩
      obtain ⟨slot, inside, held⟩ := List.mem_flatMap.mp among
      exact ⟨_, List.mem_map_of_mem inside, (slot.breaksBy_heading d.id).mpr ⟨t, held, breaks⟩⟩
  rw [slots]
  simp

theorem Slot.fill_value {slot : Slot} (value : slot.isValueSlot = true) (slots : List Slot)
    (shown : List String) :
    fill (slot :: slots) shown = shown.headD "()" :: fill slots shown.tail := by
  cases shown <;> cases slot <;> first | rfl | cases value

theorem Slot.gather_value {slot : Slot} (value : slot.isValueSlot = true) (slots : List Slot)
    (texts : List (List String)) :
    gather (slot :: slots) texts = texts.headD [] ++ gather slots texts.tail := by
  cases texts <;> cases slot <;> first | rfl | cases value

/-- Slots go over more than one line by their own texts and by the arguments that they hold. -/
theorem Slot.breaks_fill (slots : List Slot) {shown : List String} {texts : List (List String)}
    (h : List.Forall₂ BreaksBy shown texts) :
    (∃ s ∈ fill slots shown, Breaks s) ↔ ∃ t ∈ gather slots texts, Breaks t := by
  induction slots generalizing shown texts with
  | nil => simp [fill, gather]
  | cons slot slots ih =>
    have held (value : slot.isValueSlot = true) :
        (∃ s ∈ fill (slot :: slots) shown, Breaks s) ↔
          ∃ t ∈ gather (slot :: slots) texts, Breaks t := by
      have first : Breaks (shown.headD "()") ↔ ∃ t ∈ texts.headD [], Breaks t := by
        cases h with
        | nil => simp [show ¬Breaks "()" by decide]
        | cons first rest => exact first
      have rest : List.Forall₂ BreaksBy shown.tail texts.tail := by
        cases h with
        | nil => exact .nil
        | cons first rest => exact rest
      rw [fill_value value, gather_value value, List.exists_mem_cons_iff, first, ih rest]
      simp [or_and_right, exists_or]
    cases slot with
    | text label => simp [fill, gather, ih h]
    | image asset =>
      have marked : BreaksBy ("<" ++ asset ++ ">") [asset] :=
        BreaksBy.enclosed (by simp [BreaksBy]) (by decide) (by decide)
      simp only [fill, gather, List.exists_mem_cons_iff, ih h]
      rw [marked.iff]
      simp
    | argument name => exact held rfl
    | dropdown name choices => exact held rfl
    | definitionEditor => exact held rfl

namespace Registry

variable (r : Registry)

theorem breaksBy_renderWith (definition : String) {shown : List String}
    {texts : List (List String)} (h : List.Forall₂ BreaksBy shown texts) :
    BreaksBy (r.renderWith definition shown) (r.textsWith definition texts) := by
  have blank : ¬Breaks " " := by decide
  rw [renderWith, textsWith]
  cases r.find? definition with
  | some d =>
    show BreaksBy (" ".intercalate (Slot.fill d.slots shown)) (Slot.gather d.slots texts)
    rw [BreaksBy, breaks_intercalate blank]
    exact Slot.breaks_fill d.slots h
  | none =>
    show BreaksBy (" ".intercalate (("<" ++ definition ++ ">") :: shown))
      (definition :: texts.flatten)
    have marked : BreaksBy ("<" ++ definition ++ ">") [definition] :=
      BreaksBy.enclosed (by simp [BreaksBy]) (by decide) (by decide)
    have arguments : (∃ s ∈ shown, Breaks s) ↔ ∃ t ∈ texts.flatten, Breaks t := by
      induction h with
      | nil => simp
      | cons first rest ih =>
        rw [List.exists_mem_cons_iff, ih, first.iff, List.flatten_cons]
        simp [or_and_right, exists_or]
    rw [BreaksBy, breaks_intercalate blank, List.exists_mem_cons_iff, marked.iff, arguments]
    simp

mutual

/-- An argument is shown across lines just when one of its texts is. -/
theorem breaksBy_renderArgument (a : Argument) :
    BreaksBy (r.renderArgument a) (r.textsOfArgument a) := by
  cases a with
  | literal value =>
    cases value with
    | text s =>
      exact BreaksBy.enclosed (by simp [BreaksBy, textsOfArgument]) (by decide) (by decide)
    | number x =>
      refine BreaksBy.enclosed ?_ (by decide) (by decide)
      simp [BreaksBy, textsOfArgument, not_breaks_display_number]
    | boolean b =>
      refine BreaksBy.enclosed ?_ (by decide) (by decide)
      cases b <;> simp [BreaksBy, textsOfArgument] <;> decide
  | choice name =>
    exact BreaksBy.enclosed (by simp [BreaksBy, textsOfArgument]) (by decide) (by decide)
  | block definition arguments =>
    exact BreaksBy.enclosed
      (r.breaksBy_renderWith definition (breaksBy_renderArguments arguments)) (by decide)
      (by decide)
  | definition d => exact d.breaksBy_signature

theorem breaksBy_renderArguments (arguments : List Argument) :
    List.Forall₂ BreaksBy (r.renderArguments arguments) (r.textsOfArguments arguments) := by
  cases arguments with
  | nil => exact .nil
  | cons a rest => exact .cons (breaksBy_renderArgument a) (breaksBy_renderArguments rest)

end

/-- **A block is shown across lines just when one of the texts that are shown for it is.** -/
theorem breaks_render_iff (b : Block) : Breaks (r.render b) ↔ ∃ t ∈ r.textsOf b, Breaks t :=
  r.breaksBy_renderWith b.definition (r.breaksBy_renderArguments b.arguments)

end Registry

/-! ## Lines -/

theorem length_linesFrom (line cs rest : List Char) :
    (linesFrom line (cs ++ '\n' :: rest)).length =
      cs.count '\n' + 1 + (linesFrom [] rest).length := by
  have ended (line cs : List Char) :
      (linesFrom line ('\n' :: cs)).length = (linesFrom [] cs).length + 1 := rfl
  induction cs generalizing line with
  | nil => rw [List.nil_append, ended, List.count_nil, Nat.zero_add, Nat.add_comm]
  | cons c cs ih =>
    by_cases ends : c = '\n'
    · subst ends
      rw [List.cons_append, ended, ih, List.count_cons_self]
      omega
    · rw [List.cons_append, linesFrom, ih, List.count_cons_of_ne ends]
      exact fun same => ends same

/-- A text that is ended has a line more than it has line breaks. -/
theorem length_textLines_append (s rest : String) :
    (textLines (s ++ "\n" ++ rest)).length = lineBreaks s + 1 + (textLines rest).length := by
  have chars : (s ++ "\n" ++ rest).toList = s.toList ++ '\n' :: rest.toList := by simp
  rw [textLines, chars, length_linesFrom]
  rfl

theorem ListedBlock.not_breaks_indentation (b : ListedBlock) : ¬Breaks b.indentation := by
  rw [ListedBlock.indentation_eq, Breaks, String.toList_ofList]
  intro among
  cases List.eq_of_mem_replicate among

theorem ListedBlock.lineBreaks_line (b : ListedBlock) :
    lineBreaks b.line = lineBreaks b.text + 1 := by
  rw [line, lineBreaks_append, lineBreaks_append,
    lineBreaks_eq_zero_iff.mpr b.not_breaks_indentation, Nat.zero_add]
  rfl

namespace Listing

/-- The lines of blocks break once for each block, and where the blocks break. -/
theorem lineBreaks_lines (blocks : List ListedBlock) :
    lineBreaks (String.join (blocks.map ListedBlock.line)) =
      blocks.length + lineBreaks (String.join (blocks.map ListedBlock.text)) := by
  induction blocks with
  | nil => rfl
  | cons b rest ih =>
    rw [List.map_cons, String.join_cons, List.map_cons, String.join_cons, lineBreaks_append,
      lineBreaks_append, ih, b.lineBreaks_line, List.length_cons]
    omega

/-- Every line of a listing is ended. -/
theorem length_textLines (l : Listing) : (textLines l.text).length = lineBreaks l.text := by
  obtain ⟨blocks⟩ := l
  show (textLines (String.join (blocks.map ListedBlock.line))).length =
    lineBreaks (String.join (blocks.map ListedBlock.line))
  induction blocks with
  | nil => rfl
  | cons b rest ih =>
    rw [List.map_cons, String.join_cons, lineBreaks_append, ← ih, ListedBlock.line,
      length_textLines_append, lineBreaks_append (b.indentation ++ b.text)]
    rfl

end Listing

/-! ## Numbers of lines -/

theorem byteCount_eq (cs : List Char) : byteCount cs = String.utf8Len cs := by
  induction cs with
  | nil => rfl
  | cons c cs ih =>
    rw [String.utf8Len, ← ih, Nat.add_comm]
    rfl

theorem byteCount_reverse (cs : List Char) : byteCount cs.reverse = byteCount cs := by
  rw [byteCount_eq, byteCount_eq, String.utf8Len_reverse]

theorem byteCount_toList (s : String) : byteCount s.toList = s.utf8ByteSize := by
  rw [byteCount_eq, String.utf8Len_toList]

theorem byteCount_cons (c : Char) (cs : List Char) :
    byteCount (c :: cs) = c.utf8Size + byteCount cs :=
  rfl

/-- A line break ends the line that is being read. -/
theorem sourceLinesFrom_break (index start : Nat) (line cs : List Char) :
    sourceLinesFrom index start line ('\n' :: cs) =
      ⟨index, start, ('\n' :: line).reverse⟩ ::
        sourceLinesFrom (index + 1) (start + byteCount ('\n' :: line)) [] cs := by
  rw [sourceLinesFrom, byteCount_reverse]

/-- Any other character is one of the line. -/
theorem sourceLinesFrom_of_ne (index start : Nat) (line cs : List Char) {c : Char}
    (goes_on : c ≠ '\n') :
    sourceLinesFrom index start line (c :: cs) = sourceLinesFrom index start (c :: line) cs := by
  rw [sourceLinesFrom]
  exact goes_on

/-- No line begins before the text does. -/
theorem le_start_of_mem {index start : Nat} {line cs : List Char} {l : SourceLine}
    (h : l ∈ sourceLinesFrom index start line cs) : start ≤ l.start := by
  induction cs generalizing index start line with
  | nil =>
    obtain rfl := List.mem_singleton.mp h
    exact Nat.le_refl _
  | cons c cs ih =>
    by_cases ends : c = '\n'
    · subst ends
      rw [sourceLinesFrom_break] at h
      rcases List.mem_cons.mp h with rfl | h
      · exact Nat.le_refl _
      · exact Nat.le_trans (Nat.le_add_right _ _) (ih h)
    · rw [sourceLinesFrom_of_ne _ _ _ _ ends] at h
      exact ih h

/-- The line that is being read begins before what is left of it, and the others behind that. -/
theorem sourceLinesFrom_eq_cons (index start : Nat) (line cs : List Char) :
    ∃ chars rest, sourceLinesFrom index start line cs = ⟨index, start, chars⟩ :: rest ∧
      ∀ l ∈ rest, start + byteCount line < l.start := by
  induction cs generalizing line with
  | nil => exact ⟨line.reverse, [], rfl, by simp⟩
  | cons c cs ih =>
    by_cases ends : c = '\n'
    · subst ends
      refine ⟨_, _, sourceLinesFrom_break index start line cs, fun l among => ?_⟩
      have := le_start_of_mem among
      rw [byteCount_cons] at this
      have : 0 < '\n'.utf8Size := Char.utf8Size_pos _
      omega
    · obtain ⟨chars, rest, lines, behind⟩ := ih (c :: line)
      refine ⟨chars, rest, ?_, fun l among => ?_⟩
      · rw [sourceLinesFrom_of_ne _ _ _ _ ends, lines]
      · have := behind l among
        rw [byteCount_cons] at this
        omega

/-- No other line begins in what has been read of a line. -/
theorem takeWhile_lines (index start : Nat) (line cs : List Char) :
    ∃ chars, (sourceLinesFrom index start line cs).takeWhile
      (fun l => l.start ≤ start + byteCount line) = [⟨index, start, chars⟩] := by
  obtain ⟨chars, rest, lines, later⟩ := sourceLinesFrom_eq_cons index start line cs
  refine ⟨chars, ?_⟩
  rw [lines, List.takeWhile_cons_of_pos (by simp)]
  cases rest with
  | nil => rfl
  | cons l rest =>
    have := later l List.mem_cons_self
    rw [List.takeWhile_cons_of_neg (by simp; omega)]

/-- The line of a byte has as many lines before it as there are line breaks before the byte. -/
theorem getLast?_takeWhile_lines (index start : Nat) (line front behind : List Char) {byte : Nat}
    (h : byte = start + byteCount line + byteCount front) :
    ∃ l, ((sourceLinesFrom index start line (front ++ behind)).takeWhile fun l =>
        l.start ≤ byte).getLast? = some l ∧ l.index = index + front.count '\n' := by
  induction front generalizing index start line with
  | nil =>
    obtain rfl : byte = start + byteCount line := h
    obtain ⟨chars, alone⟩ := takeWhile_lines index start line behind
    exact ⟨⟨index, start, chars⟩, by rw [List.nil_append, alone]; rfl, rfl⟩
  | cons c front ih =>
    rw [byteCount_cons] at h
    by_cases ends : c = '\n'
    · subst ends
      have next : byte = start + byteCount ('\n' :: line) + byteCount [] + byteCount front := by
        rw [h, byteCount_cons]
        show _ = _ + 0 + _
        omega
      obtain ⟨l, last, number⟩ := ih (index + 1) _ [] next
      refine ⟨l, ?_, ?_⟩
      · rw [List.cons_append, sourceLinesFrom_break,
          List.takeWhile_cons_of_pos (by simp; omega), List.getLast?_cons, last]
        rfl
      · rw [number, List.count_cons_self]
        omega
    · obtain ⟨l, last, number⟩ := ih index start (c :: line) (by rw [h, byteCount_cons]; omega)
      refine ⟨l, ?_, ?_⟩
      · rw [List.cons_append, sourceLinesFrom_of_ne _ _ _ _ ends, last]
      · rw [number, List.count_cons_of_ne ends]

namespace Source

/-- **The number of the line of a byte is that of the line breaks before it.** -/
theorem index_lineAt {s : Source} {front behind : String} (h : s.text = front ++ behind) :
    (s.lineAt front.utf8ByteSize).index = lineBreaks front := by
  have place : front.utf8ByteSize = 0 + byteCount [] + byteCount front.toList := by
    rw [byteCount_toList]
    exact (Nat.zero_add _).symm
  obtain ⟨l, last, number⟩ := getLast?_takeWhile_lines 0 0 [] front.toList behind.toList place
  rw [lineAt, lines, h, String.toList_append, last, Option.getD_some, number, Nat.zero_add]
  rfl

end Source

namespace Chain

variable (c : Chain) (r : Registry)

/-- How often the blocks before an index break their lines. -/
def breaksBefore (i : Nat) : Nat := lineBreaks (String.join ((c.blocks.take i).map r.render))

variable {c r}

theorem breaksBefore_succ {i : Nat} {b : Block} (h : c.blocks[i]? = some b) :
    c.breaksBefore r (i + 1) = c.breaksBefore r i + lineBreaks (r.render b) := by
  rw [breaksBefore, List.take_add_one, h, List.map_append, String.join_append, lineBreaks_append]
  simp [breaksBefore]

theorem breaksBefore_eq_zero (h : ∀ b ∈ c.blocks, ¬Breaks (r.render b)) (i : Nat) :
    c.breaksBefore r i = 0 := by
  rw [breaksBefore, lineBreaks_eq_zero_iff, breaks_join]
  rintro ⟨t, among, breaks⟩
  obtain ⟨b, inside, rfl⟩ := List.mem_map.mp among
  exact h b (List.mem_of_mem_take inside) breaks

variable (c r)

theorem texts_ofChain :
    (Listing.ofChain r c).blocks.map ListedBlock.text = c.blocks.map r.render := by
  refine List.ext_getElem? fun i => ?_
  rw [blocks_ofChain, List.map_map, List.getElem?_map, List.getElem?_map, List.getElem?_zipIdx,
    Option.map_map]
  rfl

/-- **A listing has a line for each block, and one for each line break in what the blocks show.** -/
theorem length_lines : (textLines (Listing.ofChain r c).text).length =
    c.blocks.length + c.breaksBefore r c.blocks.length := by
  rw [Listing.length_textLines, breaksBefore, List.take_length, ← texts_ofChain,
    ← length_ofChain c r]
  exact Listing.lineBreaks_lines _

variable {c r}

/-- **A block stands behind a line for each block before it, and one for each line break that they
show.** It goes on to the next line at each line break of its own. -/
theorem lines_of_span {i : Nat} {b : Block} {span : Nat × Nat} (name : String)
    (h : c.blocks[i]? = some b) (hspan : (Listing.ofChain r c).span? i = some span) :
    let s : Source := ⟨name, (Listing.ofChain r c).text⟩
    (s.lineAt span.1).index = i + c.breaksBefore r i ∧
      (s.lineAt span.2).index = i + c.breaksBefore r (i + 1) := by
  intro s
  have hlisted := getElem?_ofChain r h
  generalize shows : ListedBlock.mk _ _ = listed at hlisted
  rw [Listing.span?_eq hlisted] at hspan
  cases hspan
  have length : ((Listing.ofChain r c).blocks.take i).length = i :=
    List.length_take_of_le (Nat.le_of_lt (List.getElem?_eq_some_iff.mp hlisted).1)
  have above : lineBreaks (Listing.before (Listing.ofChain r c).blocks i listed) =
      i + c.breaksBefore r i := by
    rw [Listing.before, lineBreaks_append, Listing.lineBreaks_lines, length, List.map_take,
      texts_ofChain, lineBreaks_eq_zero_iff.mpr listed.not_breaks_indentation, Nat.add_zero,
      ← List.map_take]
    rfl
  have whole : s.text = Listing.before (Listing.ofChain r c).blocks i listed ++ listed.text ++ _ :=
    Listing.join_lines hlisted
  constructor
  · rw [Source.index_lineAt (whole.trans String.append_assoc), above]
  · rw [← String.utf8ByteSize_append, Source.index_lineAt whole, lineBreaks_append, above,
      breaksBefore_succ h, Nat.add_assoc, ← shows]

variable (c r)

/-- **A listing has one line for each block just when no text that it shows has a line break.** Then
each block stands on the line of its index. -/
theorem one_line_each :
    ((textLines (Listing.ofChain r c).text).length = c.blocks.length ↔
      ∀ b ∈ c.blocks, ∀ t ∈ r.textsOf b, ¬Breaks t) ∧
    ((∀ b ∈ c.blocks, ∀ t ∈ r.textsOf b, ¬Breaks t) →
      ∀ i b span name, c.blocks[i]? = some b → (Listing.ofChain r c).span? i = some span →
        let s : Source := ⟨name, (Listing.ofChain r c).text⟩
        (s.lineAt span.1).index = i ∧ (s.lineAt span.2).index = i) := by
  have plain : (∀ b ∈ c.blocks, ∀ t ∈ r.textsOf b, ¬Breaks t) ↔
      ∀ b ∈ c.blocks, ¬Breaks (r.render b) := by
    refine forall₂_congr fun b _ => ?_
    rw [Registry.breaks_render_iff]
    simp
  rw [plain, length_lines]
  constructor
  · constructor
    · intro all b among breaks
      have zero : c.breaksBefore r c.blocks.length = 0 := by omega
      rw [breaksBefore, List.take_length, lineBreaks_eq_zero_iff, breaks_join] at zero
      exact zero ⟨_, List.mem_map_of_mem among, breaks⟩
    · intro h
      rw [breaksBefore_eq_zero h, Nat.add_zero]
  · intro h i b span name stands hspan
    have lines := lines_of_span name stands hspan
    rwa [breaksBefore_eq_zero h, breaksBefore_eq_zero h, Nat.add_zero] at lines

/-- A literal with a line break takes its block across two lines. -/
example : (textLines (Listing.ofChain .empty
    ⟨0, Chain.origin, [⟨"print", [.literal (.text "a\nb")]⟩]⟩).text).length = 2 := by decide

end Chain

end Blockwork
