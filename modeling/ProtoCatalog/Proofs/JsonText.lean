import ProtoCatalog.Catalog.Listing
import ProtoCatalog.Json.Reader
import ProtoCatalog.Proofs.JsonTokens
import ProtoCatalog.Proofs.MapEntries
import ProtoCatalog.Schema.Annotations

/-!
# JSON text and the value it denotes

The text of a value is read back as that value, with the members of objects in their order.  It is
plain ASCII, and the layout decides on nothing but the blanks between its tokens.
-/

namespace ProtoCatalog

namespace Json

/-! ## From tokens to values -/

-- No value begins with the end of an array.
theorem exists_tokens_eq_cons (j : Json) : ∃ t rest, tokens j = t :: rest ∧ t ≠ .endArr := by
  cases j with
  | arr items =>
    cases items <;>
    · refine ⟨_, _, rfl, ?_⟩
      exact nofun
  | obj members =>
    cases members <;>
    · refine ⟨_, _, rfl, ?_⟩
      exact nofun
  | _ =>
    refine ⟨_, _, rfl, ?_⟩
    exact nofun

namespace Reader

theorem step_firstItem {t : Token} (h : t ≠ .endArr) (stack : List Frame) :
    step (.firstItem stack) t = step (.value (.arr [] :: stack)) t := by
  cases t with
  | endArr => exact absurd rfl h
  | _ => rfl

-- The first item of an array is read as any value in it is.
theorem foldlM_firstItem (stack : List Frame) (j : Json) :
    (tokens j).foldlM step (.firstItem stack) =
      (tokens j).foldlM step (.value (.arr [] :: stack)) := by
  obtain ⟨t, more, htokens, ht⟩ := exists_tokens_eq_cons j
  rw [htokens, List.foldlM_cons, List.foldlM_cons, step_firstItem ht]

mutual

/-- The tokens of a value are read as that value, inside whatever is open. -/
theorem foldlM_tokens (stack : List Frame) :
    (j : Json) → (tokens j).foldlM step (.value stack) = some (.after j stack)
  | .null => rfl
  | .bool _ => rfl
  | .int _ => rfl
  | .decimal _ => rfl
  | .str _ => rfl
  | .arr [] => rfl
  | .arr (item :: items) => by
    show (tokens item ++ itemTokens items ++ [Token.endArr]).foldlM step (.firstItem stack) = _
    rw [List.append_assoc, List.foldlM_append, foldlM_firstItem,
      foldlM_tokens (.arr [] :: stack) item]
    exact foldlM_itemTokens stack [] item items
  | .obj [] => rfl
  | .obj ((k, v) :: members) => by
    show (tokens v ++ memberTokens members ++ [Token.endObj]).foldlM step
      (.value (.obj [] k :: stack)) = _
    rw [List.append_assoc, List.foldlM_append, foldlM_tokens (.obj [] k :: stack) v]
    exact foldlM_memberTokens stack [] k v members

/-- Behind an item the others are read, up to the end of the array. -/
theorem foldlM_itemTokens (stack : List Frame) (done : List Json) (v : Json) :
    (items : List Json) →
      (itemTokens items ++ [Token.endArr]).foldlM step (.after v (.arr done :: stack)) =
        some (.after (.arr (done.reverse ++ v :: items)) stack)
  | [] => by
    show some (after (.arr (v :: done).reverse) stack) = _
    rw [List.reverse_cons]
  | item :: items => by
    show (tokens item ++ itemTokens items ++ [Token.endArr]).foldlM step
      (.value (.arr (v :: done) :: stack)) = _
    rw [List.append_assoc, List.foldlM_append, foldlM_tokens (.arr (v :: done) :: stack) item]
    have hrest := foldlM_itemTokens stack (v :: done) item items
    rwa [List.reverse_cons, List.append_assoc] at hrest

theorem foldlM_memberTokens (stack : List Frame) (done : List (String × Json)) (k : String)
    (v : Json) : (members : List (String × Json)) →
      (memberTokens members ++ [Token.endObj]).foldlM step (.after v (.obj done k :: stack)) =
        some (.after (.obj (done.reverse ++ (k, v) :: members)) stack)
  | [] => by
    show some (after (.obj ((k, v) :: done).reverse) stack) = _
    rw [List.reverse_cons]
  | (l, w) :: members => by
    show (tokens w ++ memberTokens members ++ [Token.endObj]).foldlM step
      (.value (.obj ((k, v) :: done) l :: stack)) = _
    rw [List.append_assoc, List.foldlM_append,
      foldlM_tokens (.obj ((k, v) :: done) l :: stack) w]
    have hrest := foldlM_memberTokens stack ((k, v) :: done) l w members
    rwa [List.reverse_cons, List.append_assoc] at hrest

end

end Reader

/-- The text of a value denotes that value, in any layout. -/
theorem parse?_render (layout : Layout) (j : Json) : parse? (j.render layout) = some j := by
  rw [parse?, render, String.toList_ofList, scan?_write, Option.bind_eq_bind, Option.bind_some,
    ofTokens?, Reader.foldlM_tokens]
  rfl

/-! ## Characters -/

/-- A printable ASCII character, or the end of a line. -/
def IsPlain (c : Char) : Prop := c = '\n' ∨ 0x20 ≤ c.toNat ∧ c.toNat ≤ 0x7E

instance (c : Char) : Decidable (IsPlain c) := by unfold IsPlain; infer_instance

-- A character between two plain ones.
theorem isPlain_of_le {a c z : Char} (ha : 0x20 ≤ a.toNat) (hlow : a.val ≤ c.val)
    (hhigh : c.val ≤ z.val) (hz : z.toNat ≤ 0x7E) : IsPlain c :=
  .inr ⟨ha.trans (UInt32.le_iff_toNat_le.mp hlow), (UInt32.le_iff_toNat_le.mp hhigh).trans hz⟩

theorem isPlain_of_isAlphanum {c : Char} (h : c.isAlphanum = true) : IsPlain c := by
  have hupper : c.isUpper = true → IsPlain c := by
    intro h
    have hrange : 'A'.val ≤ c.val ∧ c.val ≤ 'Z'.val := of_decide_eq_true h
    exact isPlain_of_le (by decide) hrange.1 hrange.2 (by decide)
  have hlower : c.isLower = true → IsPlain c := by
    intro h
    have hrange := (Bool.and_eq_true _ _).mp h
    exact isPlain_of_le (by decide) (of_decide_eq_true hrange.1) (of_decide_eq_true hrange.2)
      (by decide)
  have hdigit : c.isDigit = true → IsPlain c := by
    intro h
    obtain ⟨hlow, hhigh⟩ := Char.isDigit_iff_toNat.mp h
    exact .inr ⟨le_trans (by decide) hlow, hhigh.trans (by decide)⟩
  simp only [Char.isAlphanum, Bool.or_eq_true] at h
  rcases h with halpha | h
  · exact ((Bool.or_eq_true c.isUpper c.isLower).mp halpha).elim hupper hlower
  · exact hdigit h

theorem isPlain_of_isWordChar {c : Char} (h : Lexer.isWordChar c = true) : IsPlain c := by
  simp only [Lexer.isWordChar, Bool.or_eq_true, decide_eq_true_eq] at h
  rcases h with ((h | rfl) | rfl) | rfl
  · exact isPlain_of_isAlphanum h
  all_goals decide

theorem isPlain_unitEscape (n : Nat) : ∀ c ∈ unitEscape n, IsPlain c := by
  have hhex : ∀ k < 16, IsPlain (hexDigit k) := by decide
  have hdigit : ∀ k, IsPlain (hexDigit (k % 16)) := fun k ↦ hhex _ (Nat.mod_lt _ (by decide))
  simp only [unitEscape, List.forall_mem_cons, hdigit, true_and]
  exact ⟨by decide, by decide, List.forall_mem_nil _⟩

theorem isPlain_escape (c : Char) : ∀ d ∈ escape c, IsPlain d := by
  have hescapes := escapes_escape c
  generalize escape c = text at hescapes
  cases hescapes with
  | letter h =>
    have hall : ∀ p ∈ escapeLetters, IsPlain p.2 := by decide
    exact List.forall_mem_cons.mpr ⟨by decide, List.forall_mem_singleton.mpr (hall _ h)⟩
  | itself _ _ hlow hhigh => exact List.forall_mem_singleton.mpr (.inr ⟨hlow, hhigh⟩)
  | units => exact List.forall_mem_flatMap.mpr fun n _ ↦ isPlain_unitEscape n

theorem isPlain_quoted (s : String) : ∀ c ∈ quoted s, IsPlain c := by
  have hquote : IsPlain '"' := by decide
  have hchars : ∀ c ∈ s.toList.flatMap escape, IsPlain c :=
    List.forall_mem_flatMap.mpr fun c _ ↦ isPlain_escape c
  exact List.forall_mem_append.mpr ⟨List.forall_mem_cons.mpr ⟨hquote, hchars⟩,
    List.forall_mem_singleton.mpr hquote⟩

/-! ## Blanks -/

/-- Where a character stands: outside of all strings, in one, or behind a backslash in one. -/
inductive Place where
  | outside
  | inside
  | escaped

/-- A text without the blanks that are outside of strings. -/
def squeeze : Place → List Char → List Char
  | _, [] => []
  | .outside, c :: rest =>
    if c = '"' then c :: squeeze .inside rest
    else if Lexer.isSpace c then squeeze .outside rest
    else c :: squeeze .outside rest
  | .inside, c :: rest =>
    if c = '"' then c :: squeeze .outside rest
    else if c = '\\' then c :: squeeze .escaped rest
    else c :: squeeze .inside rest
  | .escaped, c :: rest => c :: squeeze .inside rest

section Squeezing

variable (rest : List Char)

theorem squeeze_inside {c : Char} (hquote : c ≠ '"') (hbackslash : c ≠ '\\') :
    squeeze .inside (c :: rest) = c :: squeeze .inside rest := by
  rw [squeeze, if_neg hquote, if_neg hbackslash]

theorem squeeze_unitEscape (n : Nat) :
    squeeze .inside (unitEscape n ++ rest) = unitEscape n ++ squeeze .inside rest := by
  have hhex : ∀ k < 16, hexDigit k ≠ '"' ∧ hexDigit k ≠ '\\' := by decide
  have hdigit : ∀ k more, squeeze .inside (hexDigit (k % 16) :: more) =
      hexDigit (k % 16) :: squeeze .inside more := by
    intro k more
    obtain ⟨hquote, hbackslash⟩ := hhex (k % 16) (Nat.mod_lt _ (by decide))
    exact squeeze_inside more hquote hbackslash
  have hstart : ∀ more, squeeze .inside ('\\' :: 'u' :: more) =
      '\\' :: 'u' :: squeeze .inside more := fun _ ↦ rfl
  simp only [unitEscape, List.cons_append, List.nil_append, hstart, hdigit]

-- Texts that end no string do not do so one behind the other.
theorem squeeze_flatMap {α : Type} {text : α → List Char}
    (h : ∀ x rest, squeeze .inside (text x ++ rest) = text x ++ squeeze .inside rest)
    (xs : List α) :
    squeeze .inside (xs.flatMap text ++ rest) = xs.flatMap text ++ squeeze .inside rest := by
  induction xs with
  | nil => rfl
  | cons x xs ih => rw [List.flatMap_cons, List.append_assoc, h, ih, List.append_assoc]

/-- The escape of a character ends no string. -/
theorem squeeze_escape (c : Char) :
    squeeze .inside (escape c ++ rest) = escape c ++ squeeze .inside rest := by
  have hescapes := escapes_escape c
  generalize escape c = text at hescapes
  cases hescapes with
  | letter _ => rfl
  | itself hquote hbackslash _ _ => exact squeeze_inside rest hquote hbackslash
  | units => exact squeeze_flatMap rest (fun n more ↦ squeeze_unitEscape more n) _

/-- A string keeps its blanks, and its end is found. -/
theorem squeeze_quoted (s : String) :
    squeeze .outside (quoted s ++ rest) = quoted s ++ squeeze .outside rest := by
  show '"' :: squeeze .inside (s.toList.flatMap escape ++ ['"'] ++ rest) = _
  rw [List.append_assoc, squeeze_flatMap _ fun c more ↦ squeeze_escape more c]
  show '"' :: (s.toList.flatMap escape ++ '"' :: squeeze .outside rest) = _
  simp [quoted]

theorem squeeze_blanks {text : List Char} (h : ∀ c ∈ text, c = '\n' ∨ c = ' ') :
    squeeze .outside (text ++ rest) = squeeze .outside rest := by
  induction text with
  | nil => rfl
  | cons c text ih =>
    obtain ⟨hc, htext⟩ := List.forall_mem_cons.mp h
    rcases hc with rfl | rfl <;> exact ih htext

theorem squeeze_word {text : List Char} (h : ∀ c ∈ text, Lexer.isWordChar c = true) :
    squeeze .outside (text ++ rest) = text ++ squeeze .outside rest := by
  induction text with
  | nil => rfl
  | cons c text ih =>
    obtain ⟨hc, htext⟩ := List.forall_mem_cons.mp h
    have hne := Lexer.ne_special_of_isWordChar hc
    simp only [List.forall_mem_cons] at hne
    simp [squeeze, Lexer.isSpace, hne, ih htext]

end Squeezing

/-! ## Compact text -/

mutual

/-- The text of a value without any blanks outside of its strings. -/
def compact : Json → List Char
  | .arr (item :: items) => '[' :: compact item ++ compactItems items ++ [']']
  | .obj ((key, value) :: members) =>
    '{' :: quoted key ++ [':'] ++ compact value ++ compactMembers members ++ ['}']
  | j => write .oneLine 0 j

def compactItems : List Json → List Char
  | [] => []
  | item :: items => ',' :: compact item ++ compactItems items

def compactMembers : List (String × Json) → List Char
  | [] => []
  | (key, value) :: members =>
    ',' :: quoted key ++ [':'] ++ compact value ++ compactMembers members

end

/-- A text is plain, and is a given one with blanks put in outside of strings. -/
structure Spaced (text core : List Char) : Prop where
  plain : ∀ c ∈ text, IsPlain c
  squeezed : ∀ rest, squeeze .outside (text ++ rest) = core ++ squeeze .outside rest

namespace Spaced

theorem append {s t front back : List Char} (hs : Spaced s front) (ht : Spaced t back) :
    Spaced (s ++ t) (front ++ back) where
  plain := List.forall_mem_append.mpr ⟨hs.plain, ht.plain⟩
  squeezed rest := by
    rw [List.append_assoc, hs.squeezed, ht.squeezed, List.append_assoc]

theorem blanks {text : List Char} (h : ∀ c ∈ text, c = '\n' ∨ c = ' ') : Spaced text [] where
  plain c hc := by rcases h c hc with rfl | rfl <;> decide
  squeezed rest := squeeze_blanks rest h

theorem word {text : List Char} {v : Json} (h : IsWord text v) : Spaced text text where
  plain c hc := isPlain_of_isWordChar (h.chars c hc)
  squeezed rest := squeeze_word rest h.chars

theorem quoted (s : String) : Spaced (quoted s) (quoted s) where
  plain := isPlain_quoted s
  squeezed rest := squeeze_quoted rest s

/-- A bracket, a comma or a colon. -/
theorem mark {c : Char} (h : c ∈ ['[', ']', '{', '}', ',', ':']) : Spaced [c] [c] := by
  simp only [List.mem_cons, List.not_mem_nil, or_false] at h
  rcases h with rfl | rfl | rfl | rfl | rfl | rfl <;>
    exact ⟨List.forall_mem_singleton.mpr (by decide), fun _ ↦ rfl⟩

theorem space : Spaced [' '] [] := blanks (List.forall_mem_singleton.mpr (.inr rfl))

theorem colon : Spaced [':', ' '] [':'] := (mark (by decide)).append space

theorem newLine (layout : Layout) (level : Nat) : Spaced (layout.newLine level) [] :=
  blanks fun _ ↦ eq_of_mem_newLine

theorem separator (layout : Layout) (level : Nat) : Spaced (layout.separator level) [','] := by
  cases layout with
  | oneLine => exact (mark (by decide)).append space
  | indented width => exact (mark (by decide)).append (newLine (.indented width) level)

end Spaced

mutual

/-- In any layout and at any level, a value is its compact text with blanks put in. -/
theorem spaced_write (layout : Layout) (level : Nat) :
    (j : Json) → Spaced (write layout level j) (compact j)
  | .null => .word isWord_null
  | .bool true => .word isWord_true
  | .bool false => .word isWord_false
  | .int n => .word (isWord_intText n)
  | .decimal d => .word (isWord_decimal d)
  | .str s => .quoted s
  | .arr [] => (Spaced.mark (by decide)).append (.mark (by decide))
  | .arr (item :: items) => by
    have hopen := (Spaced.mark (c := '[') (by decide)).append (.newLine layout (level + 1))
    have hitems := (spaced_write layout (level + 1) item).append
      (spaced_writeItems layout (level + 1) items)
    have hclose := (Spaced.newLine layout level).append (.mark (c := ']') (by decide))
    simpa [write, compact] using (hopen.append hitems).append hclose
  | .obj [] => (Spaced.mark (by decide)).append (.mark (by decide))
  | .obj ((key, value) :: members) => by
    have hopen := (Spaced.mark (c := '{') (by decide)).append (.newLine layout (level + 1))
    have hkey := (Spaced.quoted key).append .colon
    have hmembers := (spaced_write layout (level + 1) value).append
      (spaced_writeMembers layout (level + 1) members)
    have hclose := (Spaced.newLine layout level).append (.mark (c := '}') (by decide))
    simpa [write, compact] using ((hopen.append hkey).append hmembers).append hclose

theorem spaced_writeItems (layout : Layout) (level : Nat) :
    (items : List Json) → Spaced (writeItems layout level items) (compactItems items)
  | [] => .blanks (List.forall_mem_nil _)
  | item :: items => by
    have hitems := (spaced_write layout level item).append (spaced_writeItems layout level items)
    simpa [writeItems, compactItems] using (Spaced.separator layout level).append hitems

theorem spaced_writeMembers (layout : Layout) (level : Nat) :
    (members : List (String × Json)) →
      Spaced (writeMembers layout level members) (compactMembers members)
  | [] => .blanks (List.forall_mem_nil _)
  | (key, value) :: members => by
    have hkey := (Spaced.quoted key).append .colon
    have hmembers := (spaced_write layout level value).append
      (spaced_writeMembers layout level members)
    simpa [writeMembers, compactMembers] using
      (Spaced.separator layout level).append (hkey.append hmembers)

end

/-- A text without the blanks outside of its strings. -/
def withoutBlanks (s : String) : List Char := squeeze .outside s.toList

theorem isPlain_render (layout : Layout) (j : Json) :
    ∀ c ∈ (j.render layout).toList, IsPlain c := by
  rw [render, String.toList_ofList]
  exact (spaced_write layout 0 j).plain

theorem withoutBlanks_render (layout : Layout) (j : Json) :
    withoutBlanks (j.render layout) = compact j := by
  have hsqueezed := (spaced_write layout 0 j).squeezed []
  rw [withoutBlanks, render, String.toList_ofList]
  simpa [squeeze] using hsqueezed

example : squeeze .outside (write (.indented 1) 0 (.arr [.str "a \"b", .null])) =
    "[\"a \\\"b\",null]".toList := by decide

end Json

open Json

/-- The listing of a catalog, in any layout, denotes the listed value, members of objects in their
order; it is in printable ASCII and ends of lines; and two layouts differ only in the blanks outside
of strings. -/
theorem Catalog.render_faithful (c : Catalog) :
    (∀ layout, parse? (c.render layout) = some c.toJson) ∧
    (∀ layout, ∀ ch ∈ (c.render layout).toList, IsPlain ch) ∧
    ∀ layout layout', withoutBlanks (c.render layout) = withoutBlanks (c.render layout') := by
  refine ⟨fun layout ↦ parse?_render layout _, fun layout ↦ isPlain_render layout _,
    fun layout layout' ↦ ?_⟩
  rw [render, render, withoutBlanks_render, withoutBlanks_render]

/-- A name with a quote, a blank, a delete character and a character of two units. -/
def oddName : String := "a \"b\x7f😀"

attribute [local instance] Annotations.pool

/-- A catalog with such a name is read back, whether from one line or from many. -/
theorem Catalog.render_faithful_oddName :
    ∃ c, build none [plainFile oddName "shop" []] = .ok c ∧ c.files.map (·.name) = [oddName] ∧
      parse? (c.render .oneLine) = some c.toJson ∧
      parse? (c.render (.indented 2)) = some c.toJson ∧
      (∀ ch ∈ (c.render (.indented 2)).toList, IsPlain ch) ∧
      withoutBlanks (c.render .oneLine) = withoutBlanks (c.render (.indented 2)) := by
  obtain ⟨c, hc, hname⟩ : ∃ c, build none [plainFile oddName "shop" []] = .ok c ∧
      c.files.map (·.name) = [oddName] := exists_ok (by decide +kernel)
  obtain ⟨hread, hplain, hblanks⟩ := render_faithful c
  exact ⟨c, hc, hname, hread _, hread _, hplain _, hblanks _ _⟩

end ProtoCatalog
