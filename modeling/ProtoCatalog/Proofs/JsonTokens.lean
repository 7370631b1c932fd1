import Mathlib.Data.Option.Basic
import ProtoCatalog.Json.Printer
import ProtoCatalog.Json.Token
import ProtoCatalog.Proofs.Numerals

/-!
# The tokens of JSON text

A value that is written is cut into its own tokens again, in any layout.  Words end where something
follows that cannot belong to them, so the machine may stand in the last word of a value, and what
comes next finds it between two tokens all the same.
-/

namespace ProtoCatalog.Json

/-! ## Words -/

theorem isWordChar_of_isNumeralChar {c : Char} (h : IsNumeralChar c) :
    Lexer.isWordChar c = true := by
  rcases h with h | h
  · simp [Lexer.isWordChar, Char.isAlphanum, h]
  · have hall : ['.', 'e', '+', '-'].all Lexer.isWordChar = true := rfl
    exact List.all_eq_true.mp hall c h

-- A character of a word is none that is not one.
theorem ne_of_isWordChar {c d : Char} (hc : Lexer.isWordChar c = true)
    (hd : Lexer.isWordChar d = false) : c ≠ d := by
  rintro rfl
  exact Bool.false_ne_true (hd.symm.trans hc)

/-- A word that stands for an atomic value. -/
structure IsWord (text : List Char) (v : Json) : Prop where
  ne_nil : text ≠ []
  chars : ∀ c ∈ text, Lexer.isWordChar c = true
  read : Token.ofWord? text = some v

-- A numeral is none of the three names.
theorem name_ne_of_isNumeralChar {w : List Char} (h : ∀ c ∈ w, IsNumeralChar c) :
    w ≠ ['n', 'u', 'l', 'l'] ∧ w ≠ ['t', 'r', 'u', 'e'] ∧ w ≠ ['f', 'a', 'l', 's', 'e'] := by
  have hne : ∀ c rest, ¬ IsNumeralChar c → w ≠ c :: rest := by
    rintro c rest hc rfl
    exact hc (h c List.mem_cons_self)
  exact ⟨hne _ _ (by simp [IsNumeralChar]), hne _ _ (by simp [IsNumeralChar]),
    hne _ _ (by simp [IsNumeralChar])⟩

theorem isWord_null : IsWord ['n', 'u', 'l', 'l'] .null :=
  ⟨List.cons_ne_nil _ _, List.all_eq_true.mp rfl, rfl⟩

theorem isWord_true : IsWord ['t', 'r', 'u', 'e'] (.bool true) :=
  ⟨List.cons_ne_nil _ _, List.all_eq_true.mp rfl, rfl⟩

theorem isWord_false : IsWord ['f', 'a', 'l', 's', 'e'] (.bool false) :=
  ⟨List.cons_ne_nil _ _, List.all_eq_true.mp rfl, rfl⟩

theorem isWord_intText (n : Int) : IsWord (intText n) (.int n) := by
  have htext : intText n =
      (if decide (n < 0) = true then ['-'] else []) ++ Decimal.natDigits n.natAbs := by
    simp only [intText, decide_eq_true_eq]
  have hchars : ∀ c ∈ intText n, IsNumeralChar c := by
    rw [htext]
    exact List.forall_mem_append.mpr ⟨Numeral.isNumeralChar_sign _,
      (Decimal.isDigits_natDigits _).isNumeralChar⟩
  have hread : Numeral.read? (intText n) = some (.integer n) := by
    rw [htext, Numeral.read?_integer]
    congr 2
    by_cases hneg : n < 0
    · simp only [hneg, decide_true, if_true]
      omega
    · simp only [hneg, decide_false, Bool.false_eq_true, if_false]
      omega
  obtain ⟨hnull, htrue, hfalse⟩ := name_ne_of_isNumeralChar hchars
  constructor
  case ne_nil =>
    rw [htext]
    exact fun h ↦ (Decimal.isDigits_natDigits _).ne_nil (List.append_eq_nil_iff.mp h).2
  case chars => exact fun c hc ↦ isWordChar_of_isNumeralChar (hchars c hc)
  case read => simp only [Token.ofWord?, hnull, htrue, hfalse, if_false, hread]

theorem isWord_decimal (d : Decimal) : IsWord (d.render decimalLayout) (.decimal d) := by
  have hchars := d.isNumeralChar_of_mem_render decimalLayout
  have hread := d.read?_render decimalLayout
  obtain ⟨hnull, htrue, hfalse⟩ := name_ne_of_isNumeralChar hchars
  constructor
  case ne_nil =>
    intro h
    rw [h] at hread
    cases hread
  case chars => exact fun c hc ↦ isWordChar_of_isNumeralChar (hchars c hc)
  case read => simp only [Token.ofWord?, hnull, htrue, hfalse, if_false, hread]

namespace Lexer

-- A character of a word is neither blank, nor a quote, nor a bracket, a comma or a colon.
theorem ne_special_of_isWordChar {c : Char} (h : isWordChar c = true) :
    ∀ d ∈ [' ', '\n', '\t', '\r', '"', '[', ']', '{', '}', ',', ':'], c ≠ d := by
  have hall : ∀ d ∈ [' ', '\n', '\t', '\r', '"', '[', ']', '{', '}', ',', ':'],
      isWordChar d = false := by simp [isWordChar]
  exact fun d hd ↦ ne_of_isWordChar h (hall d hd)

/-- A word is begun by any of its characters. -/
theorem stepBetween_of_isWordChar {c : Char} (h : isWordChar c = true) (tokens : List Token) :
    stepBetween tokens c = some ⟨.word [c], tokens⟩ := by
  have hne := ne_special_of_isWordChar h
  simp only [List.forall_mem_cons] at hne
  simp [stepBetween, isSpace, hne, h]

theorem foldlM_word {w chars : List Char} (hw : ∀ c ∈ w, isWordChar c = true)
    (tokens : List Token) :
    w.foldlM step ⟨.word chars, tokens⟩ = some ⟨.word (w.reverse ++ chars), tokens⟩ := by
  induction w generalizing chars with
  | nil => rfl
  | cons c rest ih =>
    obtain ⟨hc, hrest⟩ := List.forall_mem_cons.mp hw
    have hstep : step ⟨.word chars, tokens⟩ c = some ⟨.word (c :: chars), tokens⟩ := if_pos hc
    rw [List.foldlM_cons, hstep, Option.bind_eq_bind, Option.bind_some, ih hrest]
    simp

/-- The machine stands behind some tokens: between two of them, or in the last, a word. -/
inductive Settles : Lexer → List Token → Prop
  | between {tokens : List Token} : Settles ⟨.between, tokens⟩ tokens
  | word {w : List Char} {v : Json} {tokens : List Token} (h : Token.ofWord? w.reverse = some v) :
    Settles ⟨.word w, tokens⟩ (.atom v :: tokens)

theorem settles_word {w : List Char} {v : Json} (h : IsWord w v) (tokens : List Token) :
    ∃ l, w.foldlM step ⟨.between, tokens⟩ = some l ∧ l.Settles (.atom v :: tokens) := by
  obtain ⟨hne, hchars, hread⟩ := h
  cases w with
  | nil => exact absurd rfl hne
  | cons c rest =>
    obtain ⟨hc, hrest⟩ := List.forall_mem_cons.mp hchars
    refine ⟨⟨.word (c :: rest).reverse, tokens⟩, ?_, .word (by rwa [List.reverse_reverse])⟩
    rw [List.foldlM_cons, step, stepBetween_of_isWordChar hc, Option.bind_eq_bind,
      Option.bind_some, foldlM_word hrest, List.reverse_cons]

/-- What cannot go on a word is read as between two tokens. -/
theorem Settles.foldlM_eq {l : Lexer} {tokens : List Token} (h : l.Settles tokens) {c : Char}
    (hc : isWordChar c = false) (rest : List Char) :
    (c :: rest).foldlM step l = (c :: rest).foldlM step ⟨.between, tokens⟩ := by
  cases h with
  | between => rfl
  | @word w v tokens hread =>
    have hstep : step ⟨.word w, tokens⟩ c = stepBetween (.atom v :: tokens) c := by
      simp [step, hc, hread]
    rw [List.foldlM_cons, List.foldlM_cons, hstep, step]

theorem Settles.finish? {l : Lexer} {tokens : List Token} (h : l.Settles tokens) :
    l.finish? = some tokens.reverse := by
  cases h with
  | between => rfl
  | word hread => simp [Lexer.finish?, hread]

end Lexer

/-! ## Strings -/

/-- The characters that are escaped by a letter. -/
def escapeLetters : List (Char × Char) :=
  [('"', '"'), ('\\', '\\'), ('\n', 'n'), ('\r', 'r'), ('\t', 't'), ('\x0c', 'f'), ('\x08', 'b')]

/-- What a character can be in a string. -/
inductive Escapes (c : Char) : List Char → Prop
  | letter {l : Char} (h : (c, l) ∈ escapeLetters) : Escapes c ['\\', l]
  | itself (quote : c ≠ '"') (backslash : c ≠ '\\') (low : 0x20 ≤ c.toNat)
    (high : c.toNat ≤ 0x7E) : Escapes c [c]
  | units : Escapes c ((units c.toNat).flatMap unitEscape)

theorem escapes_escape (c : Char) : Escapes c (escape c) := by
  unfold escape
  iterate 7
    split
    · subst c
      exact .letter (by decide)
  split
  · rename_i hquote hbackslash _ _ _ _ _ hplain
    exact .itself hquote hbackslash hplain.1 hplain.2
  · exact .units

theorem hexValue?_hexDigit : ∀ n < 16, Token.hexValue? (hexDigit n) = some n := by decide

-- Surrogates are no characters.
theorem toNat_bounds (c : Char) :
    c.toNat < 0xD800 ∨ 0xDFFF < c.toNat ∧ c.toNat < 0x110000 := c.valid

theorem units_lt (c : Char) : ∀ n ∈ units c.toNat, n < 0x10000 := by
  intro n hn
  have hbounds := toNat_bounds c
  unfold units at hn
  split at hn
  · rw [List.mem_singleton.mp hn]
    assumption
  · rcases List.mem_cons.mp hn with rfl | hn
    · omega
    · rw [List.mem_singleton.mp hn]
      omega

namespace Lexer

variable (read : List Nat) (tokens : List Token)

theorem foldlM_unitEscape {n : Nat} (h : n < 0x10000) :
    (unitEscape n).foldlM step ⟨.text read, tokens⟩ = some ⟨.text (n :: read), tokens⟩ := by
  have hhex : ∀ k, Token.hexValue? (hexDigit (k % 16)) = some (k % 16) :=
    fun k ↦ hexValue?_hexDigit _ (Nat.mod_lt _ (by decide))
  simp [unitEscape, List.foldlM_cons, step, stepEscape, hhex]
  omega

theorem foldlM_unitEscapes {ns : List Nat} (h : ∀ n ∈ ns, n < 0x10000) :
    (ns.flatMap unitEscape).foldlM step ⟨.text read, tokens⟩ =
      some ⟨.text (ns.reverse ++ read), tokens⟩ := by
  induction ns generalizing read with
  | nil => rfl
  | cons n rest ih =>
    obtain ⟨hn, hrest⟩ := List.forall_mem_cons.mp h
    rw [List.flatMap_cons, List.foldlM_append, foldlM_unitEscape _ _ hn, Option.bind_eq_bind,
      Option.bind_some, ih _ hrest]
    simp

/-- A character that is escaped is read as its units. -/
theorem foldlM_escape (c : Char) :
    (escape c).foldlM step ⟨.text read, tokens⟩ =
      some ⟨.text ((units c.toNat).reverse ++ read), tokens⟩ := by
  have hescapes := escapes_escape c
  generalize escape c = text at hescapes
  cases hescapes with
  | @letter l h =>
    have hsmall : ∀ p ∈ escapeLetters, p.1.toNat < 0x10000 := by decide
    have hread : ∀ p ∈ escapeLetters, stepEscape read p.2 = some (.text (p.1.toNat :: read)) := by
      simp only [escapeLetters, List.forall_mem_cons]
      exact ⟨rfl, rfl, rfl, rfl, rfl, rfl, rfl, List.forall_mem_nil _⟩
    have hunits : units c.toNat = [c.toNat] := if_pos (hsmall _ h)
    have hopen : step ⟨.text read, tokens⟩ '\\' = some ⟨.escape read, tokens⟩ := rfl
    have hletter : step ⟨.escape read, tokens⟩ l = some ⟨.text (c.toNat :: read), tokens⟩ := by
      simp only [step, hread _ h, Option.map_some]
    rw [hunits, List.foldlM_cons, hopen, Option.bind_eq_bind, Option.bind_some, List.foldlM_cons,
      hletter]
    rfl
  | itself hquote hbackslash hlow hhigh =>
    have hunits : units c.toNat = [c.toNat] := if_pos (by omega)
    have hstep : step ⟨.text read, tokens⟩ c = some ⟨.text (c.toNat :: read), tokens⟩ := by
      simp only [step, if_neg hquote, if_neg hbackslash]
      exact if_neg (by omega)
    rw [hunits, List.foldlM_cons, hstep]
    rfl
  | units => exact foldlM_unitEscapes _ _ (units_lt c)

theorem foldlM_escapes (s : List Char) :
    (s.flatMap escape).foldlM step ⟨.text read, tokens⟩ =
      some ⟨.text ((s.flatMap fun c ↦ units c.toNat).reverse ++ read), tokens⟩ := by
  induction s generalizing read with
  | nil => rfl
  | cons c rest ih =>
    rw [List.flatMap_cons, List.foldlM_append, foldlM_escape, Option.bind_eq_bind,
      Option.bind_some, ih, List.flatMap_cons, List.reverse_append, List.append_assoc]

end Lexer

-- A unit that is no surrogate is a character by itself.
theorem ofUnits?_cons {n : Nat} (h : ¬ (0xD800 ≤ n ∧ n < 0xE000)) (rest : List Nat) :
    Token.ofUnits? (n :: rest) = (Token.ofUnits? rest).map (Char.ofNat n :: ·) := by
  cases rest with
  | nil => simp only [Token.ofUnits?, if_neg h, Option.map_some]
  | cons m rest => rw [Token.ofUnits?, if_neg (by omega), if_neg (by omega)]

/-- The units of a character are that character again: it is no surrogate, so a pair of surrogates
can only be one character. -/
theorem ofUnits?_units_append (c : Char) (rest : List Nat) :
    Token.ofUnits? (units c.toNat ++ rest) = (Token.ofUnits? rest).map (c :: ·) := by
  have hbounds := toNat_bounds c
  unfold units
  split
  · rw [List.singleton_append, ofUnits?_cons (by omega), Char.ofNat_toNat]
  · rename_i hlarge
    have hpair : 0x10000 + (0xD800 + (c.toNat - 0x10000) / 0x400 - 0xD800) * 0x400 +
        (0xDC00 + (c.toNat - 0x10000) % 0x400 - 0xDC00) = c.toNat := by omega
    rw [List.cons_append, List.singleton_append, Token.ofUnits?, if_pos (by omega),
      if_pos (by omega), hpair, Char.ofNat_toNat]

theorem ofUnits?_units (s : List Char) :
    Token.ofUnits? (s.flatMap fun c ↦ units c.toNat) = some s := by
  induction s with
  | nil => rfl
  | cons c rest ih => rw [List.flatMap_cons, ofUnits?_units_append, ih, Option.map_some]

/-- A string is read back, whatever characters are in it. -/
theorem Lexer.foldlM_quoted (s : String) (tokens : List Token) :
    (quoted s).foldlM step ⟨.between, tokens⟩ = some ⟨.between, .text s :: tokens⟩ := by
  have hopen : step ⟨.between, tokens⟩ '"' = some ⟨.text [], tokens⟩ := rfl
  have hclose : step ⟨.text (s.toList.flatMap fun c ↦ units c.toNat).reverse, tokens⟩ '"' =
      some ⟨.between, .text s :: tokens⟩ := by
    simp only [step, if_pos]
    rw [List.reverse_reverse, ofUnits?_units]
    simp
  rw [quoted, List.cons_append, List.foldlM_cons, hopen, Option.bind_eq_bind, Option.bind_some,
    List.foldlM_append, foldlM_escapes, List.append_nil, Option.bind_eq_bind, Option.bind_some,
    List.foldlM_cons, hclose]
  rfl

/-! ## Values -/

mutual

/-- The tokens of a value. -/
def tokens : Json → List Token
  | .null => [.atom .null]
  | .bool b => [.atom (.bool b)]
  | .int n => [.atom (.int n)]
  | .decimal d => [.atom (.decimal d)]
  | .str s => [.text s]
  | .arr [] => [.beginArr, .endArr]
  | .arr (item :: items) => .beginArr :: (tokens item ++ itemTokens items ++ [.endArr])
  | .obj [] => [.beginObj, .endObj]
  | .obj ((key, value) :: members) =>
    .beginObj :: .text key :: .colon :: (tokens value ++ memberTokens members ++ [.endObj])

/-- The tokens of the items after the first. -/
def itemTokens : List Json → List Token
  | [] => []
  | item :: items => .comma :: (tokens item ++ itemTokens items)

def memberTokens : List (String × Json) → List Token
  | [] => []
  | (key, value) :: members =>
    .comma :: .text key :: .colon :: (tokens value ++ memberTokens members)

end

namespace Lexer

/-- From behind some tokens, the machine reads a text and stands behind more of them. -/
def Reads (l : Lexer) (text : List Char) (read : List Token) : Prop :=
  ∃ l', text.foldlM step l = some l' ∧ l'.Settles read

theorem Reads.append {l : Lexer} {front back : List Char} {read more : List Token}
    (hfront : l.Reads front read) (hback : ∀ l' : Lexer, l'.Settles read → l'.Reads back more) :
    l.Reads (front ++ back) more := by
  obtain ⟨l', hl', hsettles⟩ := hfront
  obtain ⟨l'', hl'', hmore⟩ := hback l' hsettles
  exact ⟨l'', by rw [List.foldlM_append, hl', Option.bind_eq_bind, Option.bind_some, hl''], hmore⟩

theorem Settles.reads_nil {l : Lexer} {read : List Token} (h : l.Settles read) : l.Reads [] read :=
  ⟨l, rfl, h⟩

end Lexer

/-! ## Between values -/

/-- A text that ends the word in front of it and leaves the machine between two tokens. -/
structure IsGlue (text : List Char) (marks : List Token) : Prop where
  start : ∀ c ∈ text.head?, Lexer.isWordChar c = false
  read : ∀ tokens, text.foldlM Lexer.step ⟨.between, tokens⟩ =
    some ⟨.between, marks.reverse ++ tokens⟩

-- A line begins with blanks only.
theorem eq_of_mem_newLine {layout : Layout} {level : Nat} {c : Char}
    (h : c ∈ layout.newLine level) : c = '\n' ∨ c = ' ' := by
  cases layout with
  | oneLine => cases h
  | indented width => exact (List.mem_cons.mp h).imp id List.eq_of_mem_replicate

namespace IsGlue

theorem append {s t : List Char} {marks more : List Token} (hs : IsGlue s marks)
    (ht : IsGlue t more) : IsGlue (s ++ t) (marks ++ more) where
  start := by
    cases s with
    | nil => exact ht.start
    | cons c s => exact hs.start
  read tokens := by
    rw [List.foldlM_append, hs.read, Option.bind_eq_bind, Option.bind_some, ht.read,
      List.reverse_append, List.append_assoc]

theorem reads {text : List Char} {marks : List Token} (h : IsGlue text marks) {l : Lexer}
    {tokens : List Token} (hl : l.Settles tokens) : l.Reads text (marks.reverse ++ tokens) := by
  cases text with
  | nil =>
    have hnil : marks.reverse ++ tokens = tokens := by
      have hread := h.read tokens
      exact (congrArg Lexer.tokens (Option.some.inj hread)).symm
    rw [hnil]
    exact hl.reads_nil
  | cons c rest =>
    refine ⟨_, ?_, .between⟩
    rw [hl.foldlM_eq (h.start c rfl), h.read]

/-- A text behind glue is read as between two tokens. -/
theorem reads_append {text rest : List Char} {marks more : List Token} (h : IsGlue text marks)
    (hne : text ≠ []) {l : Lexer} {tokens : List Token} (hl : l.Settles tokens)
    (hrest : Lexer.Reads ⟨.between, marks.reverse ++ tokens⟩ rest more) :
    l.Reads (text ++ rest) more := by
  obtain ⟨l', hl', hmore⟩ := hrest
  refine ⟨l', ?_, hmore⟩
  cases text with
  | nil => exact absurd rfl hne
  | cons c text =>
    rw [List.cons_append, hl.foldlM_eq (h.start c rfl), ← List.cons_append, List.foldlM_append,
      h.read, Option.bind_eq_bind, Option.bind_some, hl']

theorem blanks {text : List Char} (h : ∀ c ∈ text, Lexer.isSpace c = true) : IsGlue text [] where
  start c hc := by
    have hall : ∀ d ∈ [' ', '\n', '\t', '\r'], Lexer.isWordChar d = false := by
      simp [Lexer.isWordChar]
    apply hall
    simpa [Lexer.isSpace, or_assoc] using h c (List.mem_of_mem_head? hc)
  read tokens := by
    induction text with
    | nil => rfl
    | cons c rest ih =>
      obtain ⟨hc, hrest⟩ := List.forall_mem_cons.mp h
      have hstep : Lexer.step ⟨.between, tokens⟩ c = some ⟨.between, tokens⟩ := if_pos hc
      rw [List.foldlM_cons, hstep]
      exact ih hrest

theorem newLine (layout : Layout) (level : Nat) : IsGlue (layout.newLine level) [] := by
  refine blanks fun c hc ↦ ?_
  rcases eq_of_mem_newLine hc with rfl | rfl <;> rfl

/-- A character that is a token by itself. -/
theorem mark {c : Char} {t : Token} (hc : Lexer.isWordChar c = false)
    (hstep : ∀ tokens, Lexer.stepBetween tokens c = some ⟨.between, t :: tokens⟩) :
    IsGlue [c] [t] where
  start d hd := Option.some.inj hd ▸ hc
  read tokens := by
    rw [List.foldlM_cons, Lexer.step, hstep]
    rfl

theorem comma : IsGlue [','] [.comma] := mark rfl fun _ ↦ rfl

theorem colon : IsGlue [':'] [.colon] := mark rfl fun _ ↦ rfl

theorem beginArr : IsGlue ['['] [.beginArr] := mark rfl fun _ ↦ rfl

theorem endArr : IsGlue [']'] [.endArr] := mark rfl fun _ ↦ rfl

theorem beginObj : IsGlue ['{'] [.beginObj] := mark rfl fun _ ↦ rfl

theorem endObj : IsGlue ['}'] [.endObj] := mark rfl fun _ ↦ rfl

theorem space : IsGlue [' '] [] := blanks (List.forall_mem_singleton.mpr rfl)

theorem separator (layout : Layout) (level : Nat) : IsGlue (layout.separator level) [.comma] := by
  cases layout with
  | oneLine => exact comma.append space
  | indented width => exact comma.append (newLine (.indented width) level)

/-- A key with its colon. -/
theorem key (k : String) : IsGlue (quoted k ++ [':', ' ']) [.text k, .colon] := by
  have hquoted : IsGlue (quoted k) [.text k] :=
    ⟨fun c hc ↦ (Option.some.inj hc : '"' = c) ▸ rfl, Lexer.foldlM_quoted k⟩
  exact hquoted.append (colon.append space)

end IsGlue

theorem separator_ne_nil (layout : Layout) (level : Nat) : layout.separator level ≠ [] := by
  cases layout <;> exact List.cons_ne_nil _ _

/-! ## Reading what is written -/

mutual

/-- A value that is written is cut into its tokens, from wherever a value may begin. -/
theorem reads_write (layout : Layout) (level : Nat) (read : List Token) :
    (j : Json) → Lexer.Reads ⟨.between, read⟩ (write layout level j) ((tokens j).reverse ++ read)
  | .null => Lexer.settles_word isWord_null read
  | .bool true => Lexer.settles_word isWord_true read
  | .bool false => Lexer.settles_word isWord_false read
  | .int n => Lexer.settles_word (isWord_intText n) read
  | .decimal d => Lexer.settles_word (isWord_decimal d) read
  | .str s => ⟨_, Lexer.foldlM_quoted s read, .between⟩
  | .arr [] => (IsGlue.beginArr.append .endArr).reads .between
  | .arr (item :: items) => by
    have hitem := reads_write layout (level + 1) (.beginArr :: read) item
    have hitems := hitem.append fun l hl ↦ reads_writeItems layout (level + 1) hl items
    have hclose := hitems.append fun l hl ↦
      ((IsGlue.newLine layout level).append .endArr).reads hl
    have hopen := (IsGlue.beginArr.append (.newLine layout (level + 1))).reads_append
      (List.cons_ne_nil _ _) .between hclose
    simpa [write, tokens] using hopen
  | .obj [] => (IsGlue.beginObj.append .endObj).reads .between
  | .obj ((k, value) :: members) => by
    have hvalue := reads_write layout (level + 1) (.colon :: .text k :: .beginObj :: read) value
    have hmembers := hvalue.append fun l hl ↦ reads_writeMembers layout (level + 1) hl members
    have hclose := hmembers.append fun l hl ↦
      ((IsGlue.newLine layout level).append .endObj).reads hl
    have hopen := ((IsGlue.beginObj.append (.newLine layout (level + 1))).append
      (.key k)).reads_append (List.cons_ne_nil _ _) .between hclose
    simpa [write, tokens] using hopen

theorem reads_writeItems (layout : Layout) (level : Nat) {l : Lexer} {read : List Token}
    (hl : l.Settles read) : (items : List Json) →
      l.Reads (writeItems layout level items) ((itemTokens items).reverse ++ read)
  | [] => hl.reads_nil
  | item :: items => by
    have hitem := reads_write layout level (.comma :: read) item
    have hitems := hitem.append fun l hl ↦ reads_writeItems layout level hl items
    have hcomma := (IsGlue.separator layout level).reads_append
      (separator_ne_nil layout level) hl hitems
    simpa [writeItems, itemTokens] using hcomma

theorem reads_writeMembers (layout : Layout) (level : Nat) {l : Lexer} {read : List Token}
    (hl : l.Settles read) : (members : List (String × Json)) →
      l.Reads (writeMembers layout level members) ((memberTokens members).reverse ++ read)
  | [] => hl.reads_nil
  | (k, value) :: members => by
    have hvalue := reads_write layout level (.colon :: .text k :: .comma :: read) value
    have hmembers := hvalue.append fun l hl ↦ reads_writeMembers layout level hl members
    have hcomma := ((IsGlue.separator layout level).append (.key k)).reads_append
      (by simp [separator_ne_nil]) hl hmembers
    simpa [writeMembers, memberTokens] using hcomma

end

/-- The text of a value is cut into its tokens. -/
theorem scan?_write (layout : Layout) (j : Json) :
    Token.scan? (write layout 0 j) = some (tokens j) := by
  obtain ⟨l, hl, hsettles⟩ := reads_write layout 0 [] j
  rw [Token.scan?, Lexer.start, hl, Option.bind_eq_bind, Option.bind_some, hsettles.finish?,
    List.append_nil, List.reverse_reverse]

end ProtoCatalog.Json
