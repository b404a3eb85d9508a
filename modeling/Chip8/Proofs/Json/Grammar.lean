import Chip8.Proofs.Json.Lexing

/-!
# Every text of JSON is read

The grammar of JSON says which texts a tree has: a word or a number may be spelled with a
fraction and a power of ten, a quoted text with escapes, and blanks may stand around every
value and every name. Whichever of its texts is read, the tree comes back. Behind a text that
ends in a bracket, a brace or a quote, nothing but blanks may follow.
-/

namespace Chip8.Json

/-! ## The grammar -/

/-- One digit or more. -/
def Digits (word : List Char) : Prop :=
  word ≠ [] ∧ ∀ c ∈ word, c.isDigit = true

/-- Digits with no needless zero in front. -/
def Whole (word : List Char) : Prop :=
  Digits word ∧ (word = ['0'] ∨ word.head? ≠ some '0')

/-- What may stand behind the whole part of a number. -/
inductive Fraction : List Char → Prop
  | none : Fraction []
  | some {digits : List Char} (h : Digits digits) : Fraction ('.' :: digits)

/-- The power of ten that a number may end in. -/
inductive Exponent : List Char → Prop
  | none : Exponent []
  | some {mark : Char} {sign digits : List Char} (hmark : mark = 'e' ∨ mark = 'E')
      (hsign : sign = [] ∨ sign = ['+'] ∨ sign = ['-']) (h : Digits digits) :
      Exponent (mark :: (sign ++ digits))

/-- A word or a number, with its value. -/
inductive Word : Json → List Char → Prop
  | null : Word null ['n', 'u', 'l', 'l']
  | yes : Word (bool true) ['t', 'r', 'u', 'e']
  | no : Word (bool false) ['f', 'a', 'l', 's', 'e']
  | natural {digits : List Char} (h : Whole digits) :
      Word (natural (Nat.ofDigitChars 10 digits 0)) digits
  | number {sign whole fraction exponent : List Char} (hsign : sign = [] ∨ sign = ['-'])
      (hwhole : Whole whole) (hfraction : Fraction fraction) (hexponent : Exponent exponent)
      (hmore : sign ++ (fraction ++ exponent) ≠ []) :
      Word (number (String.ofList (sign ++ (whole ++ fraction ++ exponent))))
        (sign ++ (whole ++ fraction ++ exponent))

/-- A piece of a quoted text as it may be written. -/
inductive Piece.Spells : Piece → List Char → Prop
  | plain {c : Char} (hcontrol : ¬c < ' ') (hquote : c ≠ '"') (hslash : c ≠ '\\') :
      Spells (.char c) [c]
  | short {c escape : Char} (h : ofEscape? escape = some c) : Spells (.char c) ['\\', escape]
  | numbered {p q r s : Char} {a b c d : Nat} (ha : Numeral.digit? 16 p = some a)
      (hb : Numeral.digit? 16 q = some b) (hc : Numeral.digit? 16 r = some c)
      (hd : Numeral.digit? 16 s = some d) :
      Spells (.unit (16 * (16 * (16 * a + b) + c) + d)) ['\\', 'u', p, q, r, s]

/-- Pieces between quotes. -/
inductive Quotes : Text → List Char → Prop
  | intro {spelled : List (Piece × List Char)} (h : ∀ s ∈ spelled, s.1.Spells s.2) :
      Quotes ((Piece.join (spelled.map Prod.fst)).map String.ofList)
        ('"' :: (spelled.flatMap Prod.snd ++ ['"']))

/-- A field of a record with its texts. -/
structure Member where
  name : Text
  nameText : List Char
  value : Json
  valueText : List Char

def Member.field (m : Member) : Text × Json :=
  (m.name, m.value)

def Member.chars (m : Member) : List Char :=
  m.nameText ++ ':' :: m.valueText

/-- The tree has that text. -/
inductive Spells : Json → List Char → Prop
  | word {tree : Json} {word : List Char} (h : Word tree word) : Spells tree word
  | text {content : Text} {quoted : List Char} (h : Quotes content quoted) :
      Spells (.text content) quoted
  | list {items : List (Json × List Char)} (h : ∀ item ∈ items, Spells item.1 item.2)
      {gap : List Char} (hgap : Blank gap) :
      Spells (.list (items.map Prod.fst))
        ('[' :: (gap ++ [','].intercalate (items.map Prod.snd) ++ [']']))
  | record {members : List Member} (hname : ∀ m ∈ members, Spells (.text m.name) m.nameText)
      (hvalue : ∀ m ∈ members, Spells m.value m.valueText) {gap : List Char} (hgap : Blank gap) :
      Spells (.record (members.map Member.field))
        ('\x7b' :: (gap ++ [','].intercalate (members.map Member.chars) ++ ['\x7d']))
  | spaced {tree : Json} {text front back : List Char} (hfront : Blank front)
      (h : Spells tree text) (hback : Blank back) : Spells tree (front ++ text ++ back)

/-! ## Words and numbers -/

theorem areDigits_iff {word : List Char} : areDigits word = true ↔ Digits word := by
  simp [areDigits, Digits]

theorem isWhole_iff {word : List Char} : isWhole word = true ↔ Whole word := by
  simp [isWhole, Whole, areDigits_iff]

/-- Digits are told from what follows them if it is no digit. -/
theorem takeWhile_digits {digits rest : List Char} (h : Digits digits)
    (hrest : ∀ c ∈ rest.head?, c.isDigit = false) :
    (digits ++ rest).takeWhile Char.isDigit = digits ∧
      (digits ++ rest).dropWhile Char.isDigit = rest := by
  rw [List.takeWhile_append_of_pos h.2, List.dropWhile_append_of_pos h.2]
  cases rest with
  | nil => simp
  | cons c rest =>
    have hc : c.isDigit = false := hrest c rfl
    simp [hc]

theorem Exponent.head {word : List Char} (h : Exponent word) :
    ∀ c ∈ word.head?, c.isDigit = false ∧ c ≠ '.' := by
  cases h with
  | none => simp
  | some hmark =>
    rintro c hc
    cases hc
    obtain rfl | rfl := hmark <;> decide

theorem Exponent.isExponent_eq {word : List Char} (h : Exponent word) :
    isExponent word = true := by
  cases h with
  | none => rfl
  | some hmark hsign h =>
    have hdigits := areDigits_iff.mpr h
    obtain ⟨c, rest, rfl⟩ := List.exists_cons_of_ne_nil h.1
    have hc := h.2 c List.mem_cons_self
    have hplus : c ≠ '+' := by rintro rfl; exact absurd hc (by decide)
    have hminus : c ≠ '-' := by rintro rfl; exact absurd hc (by decide)
    obtain rfl | rfl := hmark <;> obtain rfl | rfl | rfl := hsign <;>
      simp [isExponent, hdigits, hplus, hminus]

theorem Fraction.head {word : List Char} (h : Fraction word) :
    ∀ c ∈ word.head?, c.isDigit = false := by
  cases h with
  | none => simp
  | some h =>
    rintro c hc
    cases hc
    rfl

theorem isFraction_append {fraction exponent : List Char} (hfraction : Fraction fraction)
    (hexponent : Exponent exponent) : isFraction (fraction ++ exponent) = true := by
  have htail := hexponent.isExponent_eq
  cases hfraction with
  | none =>
    cases exponent with
    | nil => rfl
    | cons c rest =>
      have hc := (hexponent.head c rfl).2
      simpa [isFraction, hc] using htail
  | some h =>
    obtain ⟨htake, hdrop⟩ := takeWhile_digits h fun c hc => (hexponent.head c hc).1
    simp [isFraction, htake, hdrop, areDigits_iff.mpr h, htail]

/-- What follows the whole part of a number begins with no digit. -/
theorem head_fraction_exponent {fraction exponent : List Char} (hfraction : Fraction fraction)
    (hexponent : Exponent exponent) :
    ∀ c ∈ (fraction ++ exponent).head?, c.isDigit = false := by
  cases hfraction with
  | none => exact fun c hc => (hexponent.head c hc).1
  | some h => exact (Fraction.some h).head

theorem isMagnitude_append {whole fraction exponent : List Char} (hwhole : Whole whole)
    (hfraction : Fraction fraction) (hexponent : Exponent exponent) :
    isMagnitude (whole ++ fraction ++ exponent) = true := by
  obtain ⟨htake, hdrop⟩ :=
    takeWhile_digits hwhole.1 (head_fraction_exponent hfraction hexponent)
  rw [List.append_assoc, isMagnitude, htake, hdrop, isWhole_iff.mpr hwhole,
    isFraction_append hfraction hexponent]
  rfl

/-- No word begins like a number. -/
theorem ofBare?_of_head {c : Char} (hc : c.isDigit = true ∨ c = '-') (rest : List Char) :
    ofBare? (c :: rest) = ofNumber? (c :: rest) := by
  have hne {first : Char} {tail : List Char} (hfirst : first ∈ ['n', 't', 'f']) :
      c :: rest ≠ first :: tail := by
    rintro he
    cases he
    revert hc
    obtain rfl | rfl | rfl : c = 'n' ∨ c = 't' ∨ c = 'f' := by simpa using hfirst
    all_goals decide
  rw [ofBare?, if_neg (hne (by decide)), if_neg (hne (by decide)), if_neg (hne (by decide))]

/-- A number with a sign, a fraction or a power of ten is kept as it is written. -/
theorem ofNumber?_append {sign magnitude : List Char} (hsign : sign = [] ∨ sign = ['-'])
    (hmagnitude : isMagnitude magnitude = true) (hdigits : ¬Digits (sign ++ magnitude)) :
    ofNumber? (sign ++ magnitude) = some (.number (String.ofList (sign ++ magnitude))) := by
  have hwhole : ¬isWhole (sign ++ magnitude) = true := fun h => hdigits (isWhole_iff.mp h).1
  rw [ofNumber?, if_neg hwhole, if_pos]
  obtain rfl | rfl := hsign <;> simp [hmagnitude]

theorem Word.ofBare?_eq {tree : Json} {word : List Char} (h : Word tree word) :
    ofBare? word = some tree := by
  cases h with
  | null => rfl
  | yes => rfl
  | no => rfl
  | natural h =>
    obtain ⟨c, rest, rfl⟩ := List.exists_cons_of_ne_nil h.1.1
    rw [ofBare?_of_head (.inl (h.1.2 c List.mem_cons_self)), ofNumber?,
      if_pos (isWhole_iff.mpr h)]
  | @number sign whole fraction exponent hsign hwhole hfraction hexponent hmore =>
    have hmagnitude := isMagnitude_append hwhole hfraction hexponent
    obtain ⟨d, tail, hd⟩ := List.exists_cons_of_ne_nil hmore
    -- the sign, the point or the mark of the power
    have hmark : d.isDigit = false := by
      obtain rfl | rfl := hsign
      · exact head_fraction_exponent hfraction hexponent d (by simp_all)
      · cases hd
        rfl
    have hdigits : ¬Digits (sign ++ (whole ++ fraction ++ exponent)) := by
      intro hall
      have hmem : d ∈ sign ++ (fraction ++ exponent) := hd ▸ List.mem_cons_self
      have hword : d ∈ sign ++ (whole ++ fraction ++ exponent) := by
        simp only [List.mem_append] at hmem ⊢
        grind
      have hdigit := hall.2 d hword
      rw [hmark] at hdigit
      cases hdigit
    have hnumber := ofNumber?_append hsign hmagnitude hdigits
    obtain ⟨c, rest, rfl⟩ := List.exists_cons_of_ne_nil hwhole.1.1
    obtain rfl | rfl := hsign
    · exact (ofBare?_of_head (.inl (hwhole.1.2 c List.mem_cons_self)) _).trans hnumber
    · exact (ofBare?_of_head (.inr rfl) _).trans hnumber

theorem Exponent.of_isExponent {word : List Char} (h : isExponent word = true) :
    Exponent word := by
  have hplain {mark : Char} (hmark : mark = 'e' ∨ mark = 'E') {digits : List Char}
      (hdigits : areDigits digits = true) : Exponent (mark :: digits) :=
    .some hmark (.inl rfl) (areDigits_iff.mp hdigits)
  have hplus {mark : Char} (hmark : mark = 'e' ∨ mark = 'E') {digits : List Char}
      (hdigits : areDigits digits = true) : Exponent (mark :: '+' :: digits) :=
    .some hmark (.inr (.inl rfl)) (areDigits_iff.mp hdigits)
  have hminus {mark : Char} (hmark : mark = 'e' ∨ mark = 'E') {digits : List Char}
      (hdigits : areDigits digits = true) : Exponent (mark :: '-' :: digits) :=
    .some hmark (.inr (.inr rfl)) (areDigits_iff.mp hdigits)
  rw [isExponent.eq_def] at h
  split at h
  · exact .none
  · split at h
    · exact hplus (.inl rfl) h
    · exact hminus (.inl rfl) h
    · exact hplain (.inl rfl) h
  · split at h
    · exact hplus (.inr rfl) h
    · exact hminus (.inr rfl) h
    · exact hplain (.inr rfl) h
  · cases h

theorem exists_of_isFraction {word : List Char} (h : isFraction word = true) :
    ∃ fraction exponent, Fraction fraction ∧ Exponent exponent ∧ word = fraction ++ exponent := by
  rw [isFraction.eq_def] at h
  split at h
  · rename_i rest
    obtain ⟨hdigits, hexponent⟩ := Bool.and_eq_true_iff.mp h
    refine ⟨_, _, .some (areDigits_iff.mp hdigits), .of_isExponent hexponent, ?_⟩
    rw [List.cons_append, List.takeWhile_append_dropWhile]
  · exact ⟨[], word, .none, .of_isExponent h, rfl⟩

theorem exists_of_isMagnitude {word : List Char} (h : isMagnitude word = true) :
    ∃ whole fraction exponent, Whole whole ∧ Fraction fraction ∧ Exponent exponent ∧
      word = whole ++ fraction ++ exponent := by
  obtain ⟨hwhole, hrest⟩ := Bool.and_eq_true_iff.mp h
  obtain ⟨fraction, exponent, hfraction, hexponent, he⟩ := exists_of_isFraction hrest
  refine ⟨_, fraction, exponent, isWhole_iff.mp hwhole, hfraction, hexponent, ?_⟩
  rw [List.append_assoc, ← he, List.takeWhile_append_dropWhile]

/-- Whatever the reader takes for a word or a number is one. -/
theorem Word.of_ofBare? {tree : Json} {word : List Char} (h : ofBare? word = some tree) :
    Word tree word := by
  have hnumber {sign magnitude : List Char} (hsign : sign = [] ∨ sign = ['-'])
      (hmagnitude : isMagnitude magnitude = true) (hwhole : ¬isWhole (sign ++ magnitude) = true) :
      Word (.number (String.ofList (sign ++ magnitude))) (sign ++ magnitude) := by
    obtain ⟨whole, fraction, exponent, hw, hf, he, rfl⟩ := exists_of_isMagnitude hmagnitude
    refine .number hsign hw hf he fun hnone => hwhole ?_
    simp only [List.append_eq_nil_iff] at hnone
    obtain ⟨rfl, rfl, rfl⟩ := hnone
    simpa using isWhole_iff.mpr hw
  rw [ofBare?] at h
  split at h
  · rename_i hnull
    cases h
    exact hnull ▸ .null
  split at h
  · rename_i htrue
    cases h
    exact htrue ▸ .yes
  split at h
  · rename_i hfalse
    cases h
    exact hfalse ▸ .no
  rw [ofNumber?] at h
  split at h
  · rename_i hwhole
    cases h
    exact .natural (isWhole_iff.mp hwhole)
  rename_i hwhole
  split at h
  · rename_i hsigned
    cases h
    obtain hmagnitude | hnegative := Bool.or_eq_true_iff.mp hsigned
    · exact hnumber (.inl rfl) hmagnitude hwhole
    · obtain ⟨hsign, hmagnitude⟩ := Bool.and_eq_true_iff.mp hnegative
      cases word with
      | nil => cases hsign
      | cons c magnitude =>
        obtain rfl : c = '-' := by simpa using hsign
        exact @hnumber ['-'] magnitude (.inr rfl) hmagnitude hwhole
  · cases h

theorem Word.isBare {tree : Json} {word : List Char} (h : Word tree word) :
    ∀ c ∈ word, isBare c = true := by
  have hdigits {digits : List Char} (h : Digits digits) : ∀ c ∈ digits, Json.isBare c = true :=
    fun c hc => isBare_of_isDigit (h.2 c hc)
  cases h with
  | null => exact List.all_eq_true.mp rfl
  | yes => exact List.all_eq_true.mp rfl
  | no => exact List.all_eq_true.mp rfl
  | natural h => exact hdigits h.1
  | number hsign hwhole hfraction hexponent =>
    simp only [List.forall_mem_append]
    refine ⟨?_, ⟨hdigits hwhole.1, ?_⟩, ?_⟩
    · obtain rfl | rfl := hsign <;> exact List.all_eq_true.mp rfl
    · cases hfraction with
      | none => simp
      | some h => exact List.forall_mem_cons.mpr ⟨rfl, hdigits h⟩
    · cases hexponent with
      | none => simp
      | some hmark hsign h =>
        refine List.forall_mem_cons.mpr ⟨?_, List.forall_mem_append.mpr ⟨?_, hdigits h⟩⟩
        · obtain rfl | rfl := hmark <;> rfl
        · obtain rfl | rfl | rfl := hsign <;> exact List.all_eq_true.mp rfl

/-! ## Texts -/

open Lexer

theorem Word.lexes {tree : Json} {word : List Char} (h : Word tree word) :
    Lexes word tree.tokens := by
  have htokens : tree.tokens = [.scalar tree] := by cases h <;> rfl
  rw [htokens]
  exact lexes_bare h.isBare h.ofBare?_eq

theorem Piece.Spells.foldlM_feed {piece : Piece} {chars : List Char} (h : piece.Spells chars)
    (found : List Token) (pieces : List Piece) :
    chars.foldlM feed ⟨found, .quoted pieces⟩ = some ⟨found, .quoted (piece :: pieces)⟩ := by
  cases h with
  | plain hcontrol hquote hslash => simp [feed, feedQuoted, hcontrol, hquote, hslash]
  | @short c escape h =>
    have hu : escape ≠ 'u' := by rintro rfl; cases h
    rw [foldlM_cons_of_eq_some rfl]
    simp [feed, feedEscaped, hu, h]
  | numbered ha hb hc hd =>
    rw [foldlM_cons_of_eq_some rfl, foldlM_cons_of_eq_some rfl]
    simp [feed, feedCoded, ha, hb, hc, hd]

theorem Quotes.lexes {content : Text} {quoted : List Char} (h : Quotes content quoted) :
    Lexes quoted [.text content] := by
  obtain ⟨hspelled⟩ := h
  rename_i spelled
  intro found
  have hbody (pieces : List Piece) :
      (spelled.flatMap Prod.snd).foldlM feed ⟨found, .quoted pieces⟩ =
        some ⟨found, .quoted ((spelled.map Prod.fst).reverse ++ pieces)⟩ := by
    induction spelled generalizing pieces with
    | nil => rfl
    | cons s rest ih =>
      have hs := (hspelled s List.mem_cons_self).foldlM_feed found pieces
      rw [List.flatMap_cons, foldlM_append_of_eq_some hs,
        ih fun t ht => hspelled t (List.mem_cons_of_mem s ht)]
      simp
  refine ⟨_, ?_, .between _⟩
  rw [foldlM_cons_of_eq_some rfl, foldlM_append_of_eq_some (hbody [])]
  simp [feed, feedQuoted]

/-! ## Whole trees -/

theorem lexes_list {items : List (Json × List Char)}
    (h : ∀ item ∈ items, Lexes item.2 item.1.tokens) :
    Lexes ([','].intercalate (items.map Prod.snd)) (itemTokens (items.map Prod.fst)) := by
  induction items with
  | nil => exact .nil
  | cons item rest ih =>
    have hitem := h item List.mem_cons_self
    cases rest with
    | nil => simpa [itemTokens] using hitem
    | cons next rest =>
      have hrest := ih fun i hi => h i (List.mem_cons_of_mem item hi)
      simpa [List.intercalate_cons_cons, itemTokens_cons_cons] using hitem.append_mark rfl hrest

theorem lexes_record {members : List Member}
    (hname : ∀ m ∈ members, Lexes m.nameText [.text m.name])
    (hvalue : ∀ m ∈ members, Lexes m.valueText m.value.tokens) :
    Lexes ([','].intercalate (members.map Member.chars))
      (fieldTokens (members.map Member.field)) := by
  induction members with
  | nil => exact .nil
  | cons m rest ih =>
    have hn := hname m List.mem_cons_self
    have hv := hvalue m List.mem_cons_self
    have hm : Lexes m.chars ([.text m.name] ++ .colon :: m.value.tokens) := hn.append_mark rfl hv
    cases rest with
    | nil => simpa [Member.field, fieldTokens] using hm
    | cons next rest =>
      have hrest := ih (fun k hk => hname k (List.mem_cons_of_mem m hk))
        fun k hk => hvalue k (List.mem_cons_of_mem m hk)
      simpa [List.intercalate_cons_cons, Member.field, fieldTokens_cons_cons] using
        hm.append_mark rfl hrest

/-- A text of a tree is cut into the tokens of the tree. -/
theorem Spells.lexes {tree : Json} {text : List Char} (h : Spells tree text) :
    Lexes text tree.tokens := by
  have hnone : Blank [] := fun _ hc => nomatch hc
  induction h with
  | word h => exact h.lexes
  | text h => exact h.lexes
  | list h hgap ih =>
    have hitems := ((lexes_list ih).spaced hgap hnone).append_mark (c := ']') rfl .nil
    simpa [tokens] using Lexes.nil.append_mark rfl hitems
  | record hname hvalue hgap ihname ihvalue =>
    have hfields :=
      ((lexes_record ihname ihvalue).spaced hgap hnone).append_mark (c := '\x7d') rfl .nil
    simpa [tokens] using Lexes.nil.append_mark rfl hfields
  | spaced hfront h hback ih => exact ih.spaced hfront hback

/-- **Whichever text a tree has, it is read from it.** -/
theorem Spells.read_eq {tree : Json} {text : String} (h : Spells tree text.toList) :
    read text = some tree := by
  rw [read, h.lexes.tokens?_eq, Option.bind_some, ofTokens?_tokens]

/-! ## What follows a text -/

/-- A value of which nothing can be a longer word: a quoted text, a list or a record. -/
def Closed : Json → Prop
  | text _ | list _ | record _ => True
  | null | bool _ | natural _ | number _ => False

theorem Closed.getLast?_ne {tree : Json} (h : tree.Closed) (value : Json) :
    tree.tokens.getLast? ≠ some (.scalar value) := by
  intro hlast
  cases tree with
  | text content => cases hlast
  | list items =>
    rw [tokens, ← List.cons_append, List.getLast?_concat] at hlast
    cases hlast
  | record fields =>
    rw [tokens, ← List.cons_append, List.getLast?_concat] at hlast
    cases hlast
  | _ => exact h.elim

theorem ofTokens?_append (tree : Json) {more : List Token} (h : more ≠ []) :
    ofTokens? (tree.tokens ++ more) = none := by
  obtain ⟨token, rest, rfl⟩ := List.exists_cons_of_ne_nil h
  have hstop : Reader.feed (.complete tree) token = none := by cases token <;> rfl
  have hrun : (tree.tokens ++ token :: rest).foldlM Reader.feed (Reader.value []) = none := by
    rw [foldlM_append_of_eq_some (Reader.takes tree []), Reader.deliver, List.foldlM_cons, hstop]
    rfl
  rw [ofTokens?, hrun, Option.bind_none]

/-- **Nothing but blanks may follow a text.** -/
theorem Spells.read_append_eq_none {tree : Json} {text extra : String}
    (h : Spells tree text.toList) (hclosed : tree.Closed) (hextra : ¬Blank extra.toList) :
    read (text ++ extra) = none := by
  obtain ⟨lexer, hlexer, hsettled⟩ := h.lexes []
  rw [List.append_nil] at hsettled
  have hbetween : lexer = ⟨tree.tokens.reverse, .between⟩ := by
    generalize hfound : tree.tokens.reverse = found at hsettled
    cases hsettled with
    | between => rfl
    | @bare found lexeme value hvalue =>
      have hlast := hclosed.getLast?_ne value
      rw [← List.head?_reverse, hfound] at hlast
      exact absurd rfl hlast
  rw [read, tokens?, String.toList_append, start, foldlM_append_of_eq_some hlexer, hbetween]
  cases hrun : extra.toList.foldlM feed ⟨tree.tokens.reverse, .between⟩ with
  | none => rfl
  | some last =>
    rw [Option.bind_some]
    cases hfinish : last.finish with
    | none => rfl
    | some tokens =>
      obtain ⟨more, hmore, rfl⟩ := (beyond_of_not_blank hextra hrun).finish hfinish
      rw [Option.bind_some, List.reverse_reverse, ofTokens?_append tree hmore]

end Chip8.Json
