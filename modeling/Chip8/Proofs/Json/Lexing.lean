import Chip8.Json.Token
import Chip8.Proofs.Json.Reading

/-!
# A text is cut into tokens piece by piece

A word or a number ends only where something else begins, so behind a value the lexer may
still be in the middle of its last token. `Settled` says which tokens it has found then all
the same: a blank, the next mark, or the end of the text, makes no other difference than to
end the word. Texts that lex to tokens can then be put together at marks, with blanks around
them.

Tokens that were found stay found. So text that is not blank, behind a text that has ended,
either brings another token or is refused.
-/

namespace Chip8.Json

/-! ## The lexer between two tokens -/

namespace Lexer

/-- The lexer has found the tokens, the last of them perhaps only up to what follows it. -/
inductive Settled : Lexer → List Token → Prop
  | between (found : List Token) : Settled ⟨found, .between⟩ found
  | bare (found : List Token) {lexeme : List Char} {value : Json}
      (h : ofBare? lexeme.reverse = some value) :
      Settled ⟨found, .bare lexeme⟩ (.scalar value :: found)

theorem Settled.feed {lexer : Lexer} {found : List Token} (h : lexer.Settled found) {c : Char}
    (hc : isBare c = false) : lexer.feed c = feedBetween found c := by
  cases h with
  | between => rfl
  | bare found h => simp [Lexer.feed, hc, h]

theorem Settled.finish {lexer : Lexer} {found : List Token} (h : lexer.Settled found) :
    lexer.finish = some found.reverse := by
  cases h with
  | between => rfl
  | bare found h => simp [Lexer.finish, h]

/-- Behind any tokens, the text adds these. -/
def Lexes (text : List Char) (tokens : List Token) : Prop :=
  ∀ found, ∃ lexer : Lexer,
    text.foldlM feed ⟨found, .between⟩ = some lexer ∧ lexer.Settled (tokens.reverse ++ found)

theorem Lexes.nil : Lexes [] [] :=
  fun found => ⟨_, rfl, .between found⟩

theorem feedBetween_of_ofMark? {c : Char} {mark : Token} (h : Token.ofMark? c = some mark)
    (found : List Token) :
    isBare c = false ∧ feedBetween found c = some ⟨mark :: found, .between⟩ := by
  simp only [Token.ofMark?] at h
  split at h <;> cases h <;> exact ⟨by decide, rfl⟩

/-- Texts are put together at a mark. -/
theorem Lexes.append_mark {front back : List Char} {before after : List Token} {c : Char}
    {mark : Token} (hfront : Lexes front before) (hc : Token.ofMark? c = some mark)
    (hback : Lexes back after) : Lexes (front ++ c :: back) (before ++ mark :: after) := by
  intro found
  obtain ⟨lexer, hlexer, hsettled⟩ := hfront found
  obtain ⟨hbare, hmark⟩ := feedBetween_of_ofMark? hc (before.reverse ++ found)
  obtain ⟨last, hlast, hfound⟩ := hback (mark :: (before.reverse ++ found))
  refine ⟨last, ?_, by simpa using hfound⟩
  rw [foldlM_append_of_eq_some hlexer, foldlM_cons_of_eq_some ((hsettled.feed hbare).trans hmark),
    hlast]

theorem Lexes.tokens?_eq {text : List Char} {tokens : List Token} (h : Lexes text tokens) :
    tokens? text = some tokens := by
  obtain ⟨lexer, hlexer, hsettled⟩ := h []
  rw [tokens?, start, hlexer, Option.bind_some, hsettled.finish]
  simp

end Lexer

/-! ## Words and numbers -/

section Bare

open Lexer

theorem foldlM_bare (found : List Token) {word : List Char} (hword : ∀ c ∈ word, isBare c = true)
    (before : List Char) :
    word.foldlM feed ⟨found, .bare before⟩ = some ⟨found, .bare (word.reverse ++ before)⟩ := by
  induction word generalizing before with
  | nil => rfl
  | cons c rest ih =>
    have hc := hword c List.mem_cons_self
    have hfeed : feed ⟨found, .bare before⟩ c = some ⟨found, .bare (c :: before)⟩ := by
      simp [feed, hc]
    rw [foldlM_cons_of_eq_some hfeed, ih (fun d hd => hword d (List.mem_cons_of_mem c hd))]
    simp

theorem isBlank_of_isBare {c : Char} (hc : isBare c = true) : isBlank c = false ∧ c ≠ '"' := by
  constructor
  · cases hb : isBlank c with
    | false => rfl
    | true =>
      simp only [isBlank, Bool.or_eq_true, beq_iff_eq] at hb
      obtain ((rfl | rfl) | rfl) | rfl := hb <;> exact absurd hc (by decide)
  · rintro rfl
    exact absurd hc (by decide)

/-- A word or a number is one token. -/
theorem lexes_bare {word : List Char} {value : Json} (hword : ∀ c ∈ word, isBare c = true)
    (h : ofBare? word = some value) : Lexes word [.scalar value] := by
  intro found
  cases word with
  | nil =>
    have hempty : ofBare? [] = none := rfl
    rw [hempty] at h
    cases h
  | cons c rest =>
    have hc := hword c List.mem_cons_self
    obtain ⟨hblank, hquote⟩ := isBlank_of_isBare hc
    have hfeed : feed ⟨found, .between⟩ c = some ⟨found, .bare [c]⟩ := by
      simp [feed, feedBetween, hblank, hquote, hc]
    refine ⟨⟨found, .bare (rest.reverse ++ [c])⟩, ?_, .bare found (by simpa using h)⟩
    rw [foldlM_cons_of_eq_some hfeed]
    exact foldlM_bare found (fun d hd => hword d (List.mem_cons_of_mem c hd)) [c]

theorem isBare_of_isDigit {c : Char} (h : c.isDigit = true) : isBare c = true := by
  simp [isBare, Char.isAlphanum, h]

end Bare

/-! ## Blanks -/

section Blanks

open Lexer

/-- Blanks, tabs and line ends only. -/
def Blank (text : List Char) : Prop :=
  ∀ c ∈ text, isBlank c = true

theorem foldlM_blanks {blanks : List Char} (h : Blank blanks) (found : List Token) :
    blanks.foldlM feed ⟨found, .between⟩ = some ⟨found, .between⟩ := by
  induction blanks with
  | nil => rfl
  | cons c rest ih =>
    have hc : feed ⟨found, .between⟩ c = some ⟨found, .between⟩ := by
      simp [feed, feedBetween, h c List.mem_cons_self]
    rw [foldlM_cons_of_eq_some hc, ih fun d hd => h d (List.mem_cons_of_mem c hd)]

theorem isBare_of_isBlank {c : Char} (h : isBlank c = true) : isBare c = false := by
  cases hc : isBare c with
  | false => rfl
  | true => exact absurd h (by simp [(isBlank_of_isBare hc).1])

/-- Blanks around a text make no difference. -/
theorem Lexer.Lexes.spaced {front text back : List Char} {tokens : List Token}
    (hfront : Blank front) (h : Lexes text tokens) (hback : Blank back) :
    Lexes (front ++ text ++ back) tokens := by
  intro found
  obtain ⟨lexer, hlexer, hsettled⟩ := h found
  rw [List.append_assoc, foldlM_append_of_eq_some (foldlM_blanks hfront found),
    foldlM_append_of_eq_some hlexer]
  cases back with
  | nil => exact ⟨lexer, rfl, hsettled⟩
  | cons c rest =>
    have hc := hback c List.mem_cons_self
    have hfeed : lexer.feed c = some ⟨tokens.reverse ++ found, .between⟩ := by
      rw [hsettled.feed (isBare_of_isBlank hc)]
      simp [feedBetween, hc]
    rw [foldlM_cons_of_eq_some hfeed,
      foldlM_blanks fun d hd => hback d (List.mem_cons_of_mem c hd)]
    exact ⟨_, rfl, .between _⟩

end Blanks

/-! ## What follows a text -/

section Beyond

open Lexer

/-- The lexer has found more than these tokens, or is in the middle of another one. -/
def Lexer.Beyond (found : List Token) (lexer : Lexer) : Prop :=
  ∃ more, lexer.tokens = more ++ found ∧ (lexer.mode = .between → more ≠ [])

theorem beyond_of_feedBetween {found : List Token} {c : Char} {next : Lexer}
    (h : feedBetween found c = some next) (hc : isBlank c = false) : next.Beyond found := by
  simp only [feedBetween, hc, Bool.false_eq_true, if_false] at h
  split at h
  · cases h
    exact ⟨[], rfl, nofun⟩
  · split at h
    · cases h
      exact ⟨[], rfl, nofun⟩
    · obtain ⟨mark, -, rfl⟩ := Option.map_eq_some_iff.mp h
      exact ⟨[mark], rfl, fun _ => by simp⟩

theorem Lexer.Beyond.append {found more : List Token} {lexer : Lexer}
    (h : lexer.Beyond (more ++ found)) : lexer.Beyond found := by
  obtain ⟨front, htokens, hmode⟩ := h
  exact ⟨front ++ more, by rw [htokens, List.append_assoc], fun hb => by simp [hmode hb]⟩

/-- Between two tokens, tokens that were found before stay found. -/
theorem Lexer.Beyond.of_feedBetween {found more : List Token} {c : Char} {next : Lexer}
    (hmore : more ≠ []) (h : feedBetween (more ++ found) c = some next) : next.Beyond found := by
  cases hc : isBlank c with
  | false => exact (beyond_of_feedBetween h hc).append
  | true =>
    simp only [feedBetween, hc, if_true, Option.some.injEq] at h
    subst h
    exact ⟨more, rfl, fun _ => hmore⟩

theorem Lexer.Beyond.feed {found : List Token} {lexer next : Lexer} (h : lexer.Beyond found)
    {c : Char} (hfeed : lexer.feed c = some next) : next.Beyond found := by
  obtain ⟨tokens, mode⟩ := lexer
  obtain ⟨more, htokens, hmode⟩ := h
  simp only at htokens hmode
  subst htokens
  cases mode with
  | between => exact .of_feedBetween (hmode rfl) hfeed
  | bare lexeme =>
    simp only [Lexer.feed] at hfeed
    split at hfeed
    · cases hfeed
      exact ⟨more, rfl, nofun⟩
    · obtain ⟨value, -, hnext⟩ := Option.bind_eq_some_iff.mp hfeed
      have hmore : Token.scalar value :: more ≠ [] := by simp
      exact .of_feedBetween hmore hnext
  | quoted pieces =>
    simp only [Lexer.feed, feedQuoted] at hfeed
    split at hfeed
    · cases hfeed
      exact ⟨_ :: more, rfl, fun _ => by simp⟩
    · split at hfeed
      · cases hfeed
        exact ⟨more, rfl, nofun⟩
      · split at hfeed
        · cases hfeed
        · cases hfeed
          exact ⟨more, rfl, nofun⟩
  | escaped pieces =>
    simp only [Lexer.feed, feedEscaped] at hfeed
    split at hfeed
    · cases hfeed
      exact ⟨more, rfl, nofun⟩
    · obtain ⟨d, -, rfl⟩ := Option.map_eq_some_iff.mp hfeed
      exact ⟨more, rfl, nofun⟩
  | coded pieces missing value =>
    obtain ⟨d, -, rfl⟩ := Option.map_eq_some_iff.mp hfeed
    split <;> exact ⟨more, rfl, nofun⟩

theorem Lexer.Beyond.foldlM {found : List Token} {lexer last : Lexer} (h : lexer.Beyond found)
    {text : List Char} (hrun : text.foldlM Lexer.feed lexer = some last) : last.Beyond found := by
  induction text generalizing lexer with
  | nil =>
    cases hrun
    exact h
  | cons c rest ih =>
    rw [List.foldlM_cons] at hrun
    obtain ⟨next, hnext, hrest⟩ := Option.bind_eq_some_iff.mp hrun
    exact ih (h.feed hnext) hrest

/-- Text that is not blank brings another token, or is refused. -/
theorem beyond_of_not_blank {found : List Token} {text : List Char} (h : ¬Blank text)
    {last : Lexer} (hrun : text.foldlM feed ⟨found, .between⟩ = some last) :
    last.Beyond found := by
  induction text with
  | nil => exact absurd (fun _ hc => nomatch hc) h
  | cons c rest ih =>
    rw [List.foldlM_cons] at hrun
    obtain ⟨next, hnext, hrest⟩ := Option.bind_eq_some_iff.mp hrun
    cases hc : isBlank c with
    | false => exact (beyond_of_feedBetween hnext hc).foldlM hrest
    | true =>
      have hsame : feed ⟨found, .between⟩ c = some ⟨found, .between⟩ := by
        simp [feed, feedBetween, hc]
      have hrest' : ¬Blank rest := fun hr => h (List.forall_mem_cons.mpr ⟨hc, hr⟩)
      rw [hsame] at hnext
      cases hnext
      exact ih hrest' hrest

theorem Lexer.Beyond.finish {found tokens : List Token} {lexer : Lexer} (h : lexer.Beyond found)
    (hfinish : lexer.finish = some tokens) : ∃ more ≠ [], tokens = found.reverse ++ more := by
  obtain ⟨found', mode⟩ := lexer
  obtain ⟨more, htokens, hmode⟩ := h
  simp only at htokens hmode
  subst htokens
  cases mode with
  | between =>
    cases hfinish
    exact ⟨more.reverse, by simpa using hmode rfl, by simp⟩
  | bare lexeme =>
    obtain ⟨value, -, rfl⟩ := Option.map_eq_some_iff.mp hfinish
    exact ⟨(.scalar value :: more).reverse, by simp, by simp⟩
  | quoted pieces => cases hfinish
  | escaped pieces => cases hfinish
  | coded pieces missing value => cases hfinish

end Beyond

end Chip8.Json
