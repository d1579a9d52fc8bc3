import Nemo.Log.LogFormatter

/-!
# The pattern language

The language that `log_formatter.h` documents, and what `LogFormatter::parse` makes of its patterns.

`parse` reads the first sign of a `%%` alone. The second one is read again as the start of a directive, so
that no pattern with a `%%` is parsed as documented (`parse_iff`).
-/

namespace Nemo.Log.Pattern

open Http

/-- The documented letters. -/
inductive Directive
  | message | level | elapse | name | threadId | newLine | date | filename | line | tab | taskId
  | threadName
  deriving DecidableEq, Repr

def Directive.letter : Directive → UInt8
  | .message => 0x6d
  | .level => 0x70
  | .elapse => 0x72
  | .name => 0x63
  | .threadId => 0x74
  | .newLine => 0x6e
  | .date => 0x64
  | .filename => 0x66
  | .line => 0x6c
  | .tab => 0x54
  | .taskId => 0x46
  | .threadName => 0x4e

/-- What a directive stands for. Only the date has an argument. -/
def Directive.item : Directive → Bytes → FormatItem
  | .message, _ => .message
  | .level, _ => .level
  | .elapse, _ => .elapse
  | .name, _ => .name
  | .threadId, _ => .threadId
  | .newLine, _ => .newLine
  | .date, fmt => dateTimeFormatItem fmt
  | .filename, _ => .filename
  | .line, _ => .line
  | .tab, _ => .tab
  | .taskId, _ => .taskId
  | .threadName, _ => .threadName

/-- An element of a pattern. -/
inductive Element
  | literal (text : Bytes)
  /-- `%%` -/
  | percent
  /-- `%x` -/
  | directive (x : Directive)
  /-- `%x{fmt}` -/
  | formatted (x : Directive) (fmt : Bytes)
  deriving DecidableEq, Repr

def Element.text : Element → Bytes
  | .literal text => text
  | .percent => [0x25, 0x25]
  | .directive x => [0x25, x.letter]
  | .formatted x fmt => 0x25 :: x.letter :: 0x7b :: fmt ++ [0x7d]

/-- The pattern that the elements make. -/
def pattern (es : List Element) : Bytes := es.flatMap Element.text

/-- A letter or a brace, behind which a directive is not over. -/
def continues (c : UInt8) : Bool := isalpha c || c = 0x7b || c = 0x7d

/--
A literal has no percent sign, an argument has no closing brace, and behind a directive without an argument
there is no letter or brace.
-/
def WellFormed : List Element → Prop
  | [] => True
  | .literal text :: es => 0x25 ∉ text ∧ WellFormed es
  | .percent :: es => WellFormed es
  | .directive _ :: es => (∀ c ∈ (pattern es).head?, continues c = false) ∧ WellFormed es
  | .formatted _ fmt :: es => 0x7d ∉ fmt ∧ WellFormed es

/-- The item of a text, if there is any. -/
def textItem (str : Bytes) : List FormatItem := if str.isEmpty then [] else [.string str]

/--
The items that the elements stand for. Literals and percent signs that follow each other are one item, and
`str` is what has been read of it.
-/
def items : Bytes → List Element → List FormatItem
  | str, [] => textItem str
  | str, .literal text :: es => items (str ++ text) es
  | str, .percent :: es => items (str ++ [0x25]) es
  | str, .directive x :: es => textItem str ++ x.item [] :: items [] es
  | str, .formatted x fmt :: es => textItem str ++ x.item fmt :: items [] es

/-- The items of the pieces, and whether there is an error. -/
def outcome (x : List Piece × Bool) : List FormatItem × Bool :=
  (x.1.map fun p => p.item.1, x.2 || x.1.any fun p => p.item.2)

theorem parse_eq (pattern : Bytes) :
    ((LogFormatter.parse pattern).items, (LogFormatter.parse pattern).hasError) =
      outcome (pieces pattern.length [] pattern) := rfl

/-! ## Scanning a directive -/

theorem isalpha_letter (x : Directive) : isalpha x.letter = true := by
  cases x <;> rfl

theorem letter_ne_percent (x : Directive) : x.letter ≠ 0x25 := by
  cases x <;> decide

theorem sFormatItems_letter (x : Directive) (fmt : Bytes) :
    sFormatItems [x.letter] fmt = some (x.item fmt) := by
  cases x <;> rfl

theorem scanDirective_letter (x : Directive) (s : Bytes) :
    scanDirective [] (x.letter :: s) = scanDirective [x.letter] s := by
  have hbrace : x.letter ≠ 0x7b := by cases x <;> decide
  rw [scanDirective, if_neg, if_neg hbrace, List.nil_append]
  rw [isalpha_letter, Bool.not_true, Bool.false_and, Bool.false_and]
  exact Bool.false_ne_true

/-- The directive is over. -/
theorem scanDirective_end {s : Bytes} (str : Bytes) (h : ∀ c ∈ s.head?, continues c = false) :
    scanDirective str s = .directive str [] s := by
  cases s with
  | nil => rfl
  | cons c s =>
    have hc := h c rfl
    rw [continues, Bool.or_eq_false_iff, Bool.or_eq_false_iff] at hc
    obtain ⟨⟨halpha, hopen⟩, hclose⟩ := hc
    rw [scanDirective, if_pos]
    rw [halpha]
    simpa using ⟨of_decide_eq_false hopen, of_decide_eq_false hclose⟩

theorem scanBraces_append {fmt : Bytes} (h : 0x7d ∉ fmt) (str acc s : Bytes) :
    scanBraces str acc (fmt ++ 0x7d :: s) = .directive str (acc ++ fmt) s := by
  induction fmt generalizing acc with
  | nil => rw [List.nil_append, scanBraces, if_pos rfl, List.append_nil]
  | cons c fmt ih =>
    obtain ⟨hc, hfmt⟩ := not_or.mp (List.mem_cons.not.mp h)
    rw [List.cons_append, scanBraces, if_neg (Ne.symm hc), ih hfmt, List.append_assoc,
      List.singleton_append]

/-- The directive has an argument. -/
theorem scanDirective_brace {fmt : Bytes} (h : 0x7d ∉ fmt) (str s : Bytes) :
    scanDirective str (0x7b :: (fmt ++ 0x7d :: s)) = .directive str fmt s := by
  rw [scanDirective, if_neg (by decide), if_pos rfl, scanBraces_append h, List.nil_append]

/-! ## The outer loop -/

section

variable {fuel : Nat} {nstr s rest : Bytes} {es : List Element}

/-- Plain text is kept. -/
theorem pieces_literal {text : Bytes} (h : 0x25 ∉ text) (nstr s : Bytes)
    (hfuel : (text ++ s).length ≤ fuel) :
    ∃ fuel', s.length ≤ fuel' ∧ pieces fuel nstr (text ++ s) = pieces fuel' (nstr ++ text) s := by
  induction text generalizing fuel nstr with
  | nil => exact ⟨fuel, hfuel, by rw [List.nil_append, List.append_nil]⟩
  | cons c text ih =>
    obtain ⟨hc, htext⟩ := not_or.mp (List.mem_cons.not.mp h)
    cases fuel with
    | zero => cases hfuel
    | succ fuel =>
      obtain ⟨fuel', hle, heq⟩ := ih htext (nstr ++ [c]) (Nat.le_of_succ_le_succ hfuel)
      refine ⟨fuel', hle, ?_⟩
      rw [List.cons_append, pieces, if_pos (Ne.symm hc), heq, List.append_assoc, List.singleton_append]

/-- Of two percent signs the first one is kept, and the second one is still there. -/
theorem pieces_percent (fuel : Nat) (nstr s : Bytes) :
    pieces (fuel + 1) nstr (0x25 :: 0x25 :: s) = pieces fuel (nstr ++ [0x25]) (0x25 :: s) := by
  rw [pieces, if_neg (not_not_intro rfl), List.head?_cons, if_pos rfl]

/-- What a directive adds to the items. -/
theorem outcome_directive {x : Directive} {fmt : Bytes} (nstr : Bytes)
    (hscan : scanDirective [] (x.letter :: s) = .directive [x.letter] fmt rest) :
    outcome (pieces (fuel + 1) nstr (0x25 :: x.letter :: s)) =
      (textItem nstr ++ x.item fmt :: (outcome (pieces fuel [] rest)).1,
        (outcome (pieces fuel [] rest)).2) := by
  have hhead : (x.letter :: s).head? ≠ some 0x25 := fun heq =>
    letter_ne_percent x (Option.some.inj heq)
  have hitem : (Piece.directive [x.letter] fmt).item = (x.item fmt, false) := by
    rw [Piece.item, sFormatItems_letter]
  rw [pieces, if_neg (not_not_intro rfl), if_neg hhead, hscan]
  dsimp only
  generalize pieces fuel [] rest = y
  unfold outcome textItem
  cases hn : nstr.isEmpty
  · simp only [Bool.false_eq_true, if_false, List.singleton_append, List.map_cons, List.any_cons, hitem,
      Bool.false_or]
    rfl
  · simp only [if_true, List.nil_append, List.map_cons, List.any_cons, hitem, Bool.false_or]

/-- An element that is a directive, and what its scan gives. -/
theorem scan_directive (x : Directive) (h : ∀ c ∈ s.head?, continues c = false) :
    scanDirective [] (x.letter :: s) = .directive [x.letter] [] s :=
  (scanDirective_letter x s).trans (scanDirective_end _ h)

theorem scan_formatted (x : Directive) {fmt : Bytes} (h : 0x7d ∉ fmt) (s : Bytes) :
    scanDirective [] (x.letter :: 0x7b :: (fmt ++ 0x7d :: s)) = .directive [x.letter] fmt s :=
  (scanDirective_letter x _).trans (scanDirective_brace h _ s)

theorem pattern_formatted (x : Directive) (fmt : Bytes) (es : List Element) :
    pattern (.formatted x fmt :: es) =
      0x25 :: x.letter :: 0x7b :: (fmt ++ 0x7d :: pattern es) := by
  show 0x25 :: x.letter :: 0x7b :: fmt ++ [0x7d] ++ pattern es = _
  rw [List.append_assoc]
  rfl

end

/-! ## Patterns without `%%` -/

/-- Every element is read exactly. -/
theorem outcome_of_noPercent {es : List Element} (hwf : WellFormed es) (hno : .percent ∉ es) {fuel : Nat}
    (hfuel : (pattern es).length ≤ fuel) (nstr : Bytes) :
    outcome (pieces fuel nstr (pattern es)) = (items nstr es, false) := by
  induction es generalizing fuel nstr with
  | nil =>
    have hend : pieces fuel nstr [] = (if nstr.isEmpty then [] else [.text nstr], false) := by
      cases fuel <;> rfl
    show outcome (pieces fuel nstr []) = (textItem nstr, false)
    rw [hend]
    unfold outcome textItem
    cases nstr.isEmpty <;> rfl
  | cons e es ih =>
    have hno' : .percent ∉ es := fun hmem => hno (List.mem_cons_of_mem _ hmem)
    cases e with
    | literal text =>
      obtain ⟨hplain, hwf'⟩ := hwf
      obtain ⟨fuel', hle, heq⟩ := pieces_literal hplain nstr (pattern es) hfuel
      show outcome (pieces fuel nstr (text ++ pattern es)) = _
      rw [heq]
      exact ih hwf' hno' hle _
    | percent => exact absurd List.mem_cons_self hno
    | directive x =>
      obtain ⟨hnext, hwf'⟩ := hwf
      cases fuel with
      | zero => cases hfuel
      | succ fuel =>
        show outcome (pieces (fuel + 1) nstr (0x25 :: x.letter :: pattern es)) = _
        rw [outcome_directive nstr (scan_directive x hnext),
          ih hwf' hno' (Nat.le_of_succ_le (Nat.le_of_succ_le_succ hfuel))]
        rfl
    | formatted x fmt =>
      obtain ⟨hclosed, hwf'⟩ := hwf
      rw [pattern_formatted] at hfuel ⊢
      cases fuel with
      | zero => cases hfuel
      | succ fuel =>
        have hle : (pattern es).length ≤ fuel := by
          simp only [List.length_cons, List.length_append] at hfuel
          omega
        rw [outcome_directive nstr (scan_formatted x hclosed _), ih hwf' hno' hle]
        rfl

/-! ## Patterns with `%%` -/

/-- What has been read of a text is the beginning of the first item. -/
theorem items_head {str : Bytes} (h : str ≠ []) (es : List Element) :
    ∃ more rest, items str es = .string (str ++ more) :: rest := by
  have htext : textItem str = [.string str] := if_neg (mt List.isEmpty_iff.mp h)
  induction es generalizing str with
  | nil => exact ⟨[], [], by rw [items, htext, List.append_nil]⟩
  | cons e es ih =>
    cases e with
    | literal text =>
      have hne : str ++ text ≠ [] := List.append_ne_nil_of_left_ne_nil h text
      obtain ⟨more, rest, heq⟩ := ih hne (if_neg (mt List.isEmpty_iff.mp hne))
      exact ⟨text ++ more, rest, by rw [items, heq, List.append_assoc]⟩
    | percent =>
      have hne : str ++ [0x25] ≠ [] := List.append_ne_nil_of_left_ne_nil h _
      obtain ⟨more, rest, heq⟩ := ih hne (if_neg (mt List.isEmpty_iff.mp hne))
      exact ⟨[0x25] ++ more, rest, by rw [items, heq, List.append_assoc]⟩
    | directive x => exact ⟨[], _, by rw [items, htext, List.append_nil]; rfl⟩
    | formatted x fmt => exact ⟨[], _, by rw [items, htext, List.append_nil]; rfl⟩

/-- The text that is kept when a directive begins is an item, with one behind it, or there is an error. -/
theorem outcome_head (fuel : Nat) {nstr : Bytes} (s : Bytes) (hn : nstr ≠ []) (hs : s.head? ≠ some 0x25) :
    (outcome (pieces (fuel + 1) nstr (0x25 :: s))).2 = true ∨
      ∃ item rest, (outcome (pieces (fuel + 1) nstr (0x25 :: s))).1 = .string nstr :: item :: rest := by
  have hempty : nstr.isEmpty = false := by rwa [List.isEmpty_eq_false_iff]
  rw [pieces, if_neg (not_not_intro rfl), if_neg hs]
  split
  · next str fmt rest _ =>
    refine .inr ⟨(Piece.directive str fmt).item.1, (outcome (pieces fuel [] rest)).1, ?_⟩
    unfold outcome
    rw [hempty]
    rfl
  · exact .inl rfl

/-- No text goes on with percent signs and with another byte at one place. -/
theorem replicate_ne {i j : Nat} (hij : i ≤ j) (w : Bytes) {c : UInt8} (hc : c ≠ 0x25) (more : Bytes) :
    w ++ List.replicate j 0x25 ≠ w ++ List.replicate i 0x25 ++ c :: more := by
  intro heq
  obtain ⟨k, rfl⟩ := Nat.exists_eq_add_of_le hij
  rw [List.replicate_add, ← List.append_assoc] at heq
  have htail := List.append_cancel_left heq
  have hmem : c ∈ List.replicate k (0x25 : UInt8) := htail ▸ List.mem_cons_self
  exact hc (List.eq_of_mem_replicate hmem)

theorem append_replicate_ne_nil {k : Nat} (hk : 0 < k) (w : Bytes) : w ++ List.replicate k 0x25 ≠ [] := by
  refine List.append_ne_nil_of_right_ne_nil w ?_
  rw [Ne, List.replicate_eq_nil_iff]
  omega

/-- A directive behind a text that is too long. -/
theorem textItem_append_ne {i j : Nat} (hi : 0 < i) (hij : i ≤ j) (w : Bytes) {xs ys : List FormatItem} :
    textItem (w ++ List.replicate (j + 1) 0x25) ++ xs ≠ textItem (w ++ List.replicate i 0x25) ++ ys := by
  intro heq
  rw [textItem, textItem, if_neg (mt List.isEmpty_iff.mp (append_replicate_ne_nil (Nat.succ_pos j) w)),
    if_neg (mt List.isEmpty_iff.mp (append_replicate_ne_nil hi w))] at heq
  have hstr := FormatItem.string.inj (List.cons.inj heq).1
  have hlen := congrArg List.length hstr
  rw [List.length_append, List.length_append, List.length_replicate, List.length_replicate] at hlen
  omega

/--
The second sign of a `%%` is still there. The text in front of it ends with `j` percent signs where
it should end with `i`.
-/
theorem outcome_stuck {es : List Element} (hwf : WellFormed es) {fuel : Nat}
    (hfuel : (pattern es).length < fuel) (w : Bytes) {i j : Nat} (hi : 0 < i) (hij : i ≤ j) :
    outcome (pieces fuel (w ++ List.replicate j 0x25) (0x25 :: pattern es)) ≠
      (items (w ++ List.replicate i 0x25) es, false) := by
  have hne {k : Nat} (hk : 0 < k) := append_replicate_ne_nil hk w
  have hsnoc (k : Nat) : w ++ List.replicate k 0x25 ++ [0x25] = w ++ List.replicate (k + 1) 0x25 := by
    rw [List.append_assoc, List.replicate_succ']
  induction es generalizing fuel i j with
  | nil =>
    obtain ⟨fuel, rfl⟩ := Nat.exists_eq_add_one_of_ne_zero (Nat.ne_of_gt (Nat.zero_lt_of_lt hfuel))
    intro heq
    rcases outcome_head fuel [] (hne (Nat.lt_of_lt_of_le hi hij)) nofun with
      herror | ⟨item, rest, hfirst⟩
    · exact Bool.false_ne_true ((congrArg Prod.snd heq).symm.trans herror)
    · have hitems := (congrArg Prod.fst heq).symm.trans hfirst
      rw [items, textItem, if_neg (mt List.isEmpty_iff.mp (hne hi))] at hitems
      exact List.cons_ne_nil _ _ (List.cons.inj hitems).2.symm
  | cons e es ih =>
    obtain ⟨fuel, rfl⟩ := Nat.exists_eq_add_one_of_ne_zero (Nat.ne_of_gt (Nat.zero_lt_of_lt hfuel))
    cases e with
    | literal text =>
      obtain ⟨hplain, hwf'⟩ := hwf
      cases text with
      | nil =>
        rw [items, List.append_nil]
        exact ih hwf' hfuel hi hij
      | cons c text =>
        have hc : c ≠ 0x25 := fun heq => hplain (heq ▸ List.mem_cons_self)
        intro heq
        rcases outcome_head fuel (c :: text ++ pattern es)
            (hne (Nat.lt_of_lt_of_le hi hij)) (fun h => hc (Option.some.inj h)) with
          herror | ⟨item, rest, hfirst⟩
        · exact Bool.false_ne_true ((congrArg Prod.snd heq).symm.trans herror)
        · have hitems := (congrArg Prod.fst heq).symm.trans hfirst
          obtain ⟨more, rest', hhead⟩ :=
            items_head (List.append_ne_nil_of_left_ne_nil (hne hi) (c :: text)) es
          rw [items, hhead, List.append_assoc, List.cons_append] at hitems
          obtain ⟨hstr, -⟩ := List.cons.inj hitems
          exact replicate_ne hij w hc _ (FormatItem.string.inj hstr).symm
    | percent =>
      have hlen : (pattern es).length < fuel - 1 := by
        have hcons : (pattern (.percent :: es)).length = (pattern es).length + 2 := rfl
        omega
      obtain ⟨fuel, rfl⟩ := Nat.exists_eq_add_one_of_ne_zero (show fuel ≠ 0 by omega)
      show outcome (pieces (fuel + 1 + 1) _ (0x25 :: 0x25 :: 0x25 :: pattern es)) ≠ _
      rw [pieces_percent, pieces_percent, hsnoc, hsnoc, items, hsnoc]
      exact ih hwf hlen (Nat.succ_pos i) (by omega)
    | directive x =>
      obtain ⟨hnext, -⟩ := hwf
      obtain ⟨fuel, rfl⟩ := Nat.exists_eq_add_one_of_ne_zero
        (show fuel ≠ 0 from Nat.ne_of_gt (Nat.lt_of_lt_of_le (Nat.succ_pos _) (Nat.le_of_lt_succ hfuel)))
      show outcome (pieces (fuel + 1 + 1) _ (0x25 :: 0x25 :: x.letter :: pattern es)) ≠ _
      rw [pieces_percent, hsnoc, outcome_directive _ (scan_directive x hnext), items]
      exact fun heq => textItem_append_ne hi hij w (congrArg Prod.fst heq)
    | formatted x fmt =>
      obtain ⟨hclosed, -⟩ := hwf
      rw [pattern_formatted] at hfuel ⊢
      obtain ⟨fuel, rfl⟩ := Nat.exists_eq_add_one_of_ne_zero
        (show fuel ≠ 0 from Nat.ne_of_gt (Nat.lt_of_lt_of_le (Nat.succ_pos _) (Nat.le_of_lt_succ hfuel)))
      rw [pieces_percent, hsnoc, outcome_directive _ (scan_formatted x hclosed _), items]
      exact fun heq => textItem_append_ne hi hij w (congrArg Prod.fst heq)

/-- What goes wrong behind a directive goes wrong. -/
theorem behind_ne {x : List FormatItem × Bool} {ys pre : List FormatItem} {item : FormatItem}
    (h : x ≠ (ys, false)) : (pre ++ item :: x.1, x.2) ≠ (pre ++ item :: ys, false) := by
  intro heq
  obtain ⟨hitems, herror⟩ := Prod.mk.inj heq
  exact h (Prod.ext (List.cons.inj (List.append_cancel_left hitems)).2 herror)

/-- A pattern with a `%%` is not parsed as documented. -/
theorem outcome_of_percent {es : List Element} (hwf : WellFormed es) (hmem : .percent ∈ es) {fuel : Nat}
    (hfuel : (pattern es).length ≤ fuel) (nstr : Bytes) :
    outcome (pieces fuel nstr (pattern es)) ≠ (items nstr es, false) := by
  induction es generalizing fuel nstr with
  | nil => cases hmem
  | cons e es ih =>
    cases e with
    | literal text =>
      obtain ⟨hplain, hwf'⟩ := hwf
      obtain ⟨fuel', hle, heq⟩ := pieces_literal hplain nstr (pattern es) hfuel
      show outcome (pieces fuel nstr (text ++ pattern es)) ≠ _
      rw [heq]
      exact ih hwf' ((List.mem_cons.mp hmem).resolve_left nofun) hle _
    | percent =>
      cases fuel with
      | zero => cases hfuel
      | succ fuel =>
        show outcome (pieces (fuel + 1) nstr (0x25 :: 0x25 :: pattern es)) ≠ _
        rw [pieces_percent]
        have hwf' : WellFormed es := hwf
        exact outcome_stuck hwf' (Nat.le_of_succ_le_succ hfuel) nstr Nat.one_pos (Nat.le_refl 1)
    | directive x =>
      obtain ⟨hnext, hwf'⟩ := hwf
      cases fuel with
      | zero => cases hfuel
      | succ fuel =>
        show outcome (pieces (fuel + 1) nstr (0x25 :: x.letter :: pattern es)) ≠ _
        rw [outcome_directive nstr (scan_directive x hnext), items]
        exact behind_ne (ih hwf' ((List.mem_cons.mp hmem).resolve_left nofun)
          (Nat.le_of_succ_le (Nat.le_of_succ_le_succ hfuel)) [])
    | formatted x fmt =>
      obtain ⟨hclosed, hwf'⟩ := hwf
      rw [pattern_formatted] at hfuel ⊢
      cases fuel with
      | zero => cases hfuel
      | succ fuel =>
        have hle : (pattern es).length ≤ fuel := by
          simp only [List.length_cons, List.length_append] at hfuel
          omega
        rw [outcome_directive nstr (scan_formatted x hclosed _), items]
        exact behind_ne (ih hwf' ((List.mem_cons.mp hmem).resolve_left nofun) hle [])

/-- `parse` finds no error, and the documented items. -/
def ParsesAs (es : List Element) : Prop :=
  (LogFormatter.parse (pattern es)).hasError = false ∧
    (LogFormatter.parse (pattern es)).items = items [] es

/-- **Patterns are parsed as documented exactly if they have no `%%`.** -/
theorem parse_iff {es : List Element} (hwf : WellFormed es) : ParsesAs es ↔ .percent ∉ es := by
  constructor
  · rintro ⟨herror, hitems⟩ hmem
    exact outcome_of_percent hwf hmem (Nat.le_refl _) []
      ((parse_eq (pattern es)).symm.trans (Prod.ext hitems herror))
  · intro hno
    have heq := (parse_eq (pattern es)).trans (outcome_of_noPercent hwf hno (Nat.le_refl _) [])
    exact ⟨congrArg Prod.snd heq, congrArg Prod.fst heq⟩

/-- `%d{%H}[%m]%n` -/
theorem parse_iff_dateMessage :
    ParsesAs [.formatted .date (ascii "%H"), .literal (ascii "["), .directive .message,
        .literal (ascii "]"), .directive .newLine] ↔
      .percent ∉ [Element.formatted .date (ascii "%H"), .literal (ascii "["), .directive .message,
        .literal (ascii "]"), .directive .newLine] :=
  parse_iff ⟨by decide, by decide, by rintro _ ⟨⟩; rfl, by decide, by rintro _ ⟨⟩, trivial⟩

/-- In `%%m`, the second percent sign begins a directive. -/
theorem not_parsesAs : ¬ ∀ es, WellFormed es → ParsesAs es := by
  intro h
  obtain ⟨-, hitems⟩ := h [.percent, .literal (ascii "m")] ⟨by decide, trivial⟩
  revert hitems
  decide

end Nemo.Log.Pattern
