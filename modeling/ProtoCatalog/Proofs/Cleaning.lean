import Mathlib.Data.List.DropRight
import ProtoCatalog.Source

/-!
# Cleaned comments

Cleaning drops the decoration in front of a comment, and all of a comment that is hidden.  What is
left begins with no decoration and not with the mark of hidden comments, and cleaning it again
changes nothing.  Two comments are joined and trimmed before they are cleaned, so a description does
not end in a blank.
-/

namespace ProtoCatalog

namespace Comment

/-! ## Decoration and the mark -/

/-- A text that may be shown begins with no decoration and not with the mark of hidden comments. -/
structure IsShown (text : String) : Prop where
  undecorated : ∀ c ∈ ['*', '/', '\n', ' '], ¬ [c] <+: text.toList
  unmarked : ¬ "@exclude".toList <+: text.toList

/-- A comment is hidden if the mark stands behind its decoration. -/
def IsHidden (comment : String) : Prop :=
  ∃ front rest, (∀ c ∈ front, c ∈ ['*', '/', '\n', ' ']) ∧
    comment.toList = front ++ ("@exclude".toList ++ rest)

/-- A text of nothing but decoration. -/
def IsDecorative (text : String) : Prop := ∀ c ∈ text.toList, c ∈ ['*', '/', '\n', ' ']

/-- The lead of a comment is its longest start of nothing but decoration. -/
structure IsLead (lead comment : String) : Prop where
  decorative : IsDecorative lead
  start : lead.toList <+: comment.toList
  longest : ∀ front, IsDecorative front → front.toList <+: comment.toList →
    front.toList <+: lead.toList

theorem isDecoration_iff {c : Char} : isDecoration c = true ↔ c ∈ ['*', '/', '\n', ' '] := by
  simp only [isDecoration, Bool.or_eq_true, decide_eq_true_eq, List.mem_cons, List.not_mem_nil,
    or_false, or_assoc]

theorem toList_mark : "@exclude".toList = hiddenMark := by decide

theorem isDecorative_iff {text : String} :
    IsDecorative text ↔ text.toList.dropWhile isDecoration = [] := by
  rw [List.dropWhile_eq_nil_iff]
  exact forall₂_congr fun c _ ↦ isDecoration_iff.symm

instance (text : String) : Decidable (IsDecorative text) :=
  decidable_of_iff _ isDecorative_iff.symm

theorem isHidden_iff {comment : String} :
    IsHidden comment ↔ hiddenMark <+: comment.toList.dropWhile isDecoration := by
  constructor
  · rintro ⟨front, rest, hfront, he⟩
    rw [he, List.dropWhile_append_of_pos fun c hc ↦ isDecoration_iff.mpr (hfront c hc),
      toList_mark]
    exact ⟨rest, rfl⟩
  · rintro ⟨rest, he⟩
    refine ⟨comment.toList.takeWhile isDecoration, rest, fun c hc ↦ ?_, ?_⟩
    · exact isDecoration_iff.mp (List.mem_takeWhile_imp hc)
    · rw [toList_mark, he, List.takeWhile_append_dropWhile]

instance (comment : String) : Decidable (IsHidden comment) := decidable_of_iff _ isHidden_iff.symm

/-- Every comment has a lead. -/
theorem isLead_takeWhile (comment : String) :
    IsLead (String.ofList (comment.toList.takeWhile isDecoration)) comment := by
  constructor
  · intro c hc
    rw [String.toList_ofList] at hc
    exact isDecoration_iff.mp (List.mem_takeWhile_imp hc)
  · rw [String.toList_ofList]
    exact List.takeWhile_prefix _
  · rintro front hfront ⟨rest, he⟩
    rw [String.toList_ofList, ← he,
      List.takeWhile_append_of_pos fun c hc ↦ isDecoration_iff.mpr (hfront c hc)]
    exact List.prefix_append _ _

-- The mark begins with no decoration, so it stands behind the lead and not further in front.
theorem isHidden_iff_exists_lead {comment : String} : IsHidden comment ↔
    ∃ lead, IsLead lead comment ∧ lead.toList ++ "@exclude".toList <+: comment.toList := by
  constructor
  · intro h
    refine ⟨_, isLead_takeWhile comment, ?_⟩
    obtain ⟨rest, he⟩ := isHidden_iff.mp h
    rw [String.toList_ofList, toList_mark]
    exact ⟨rest, by rw [List.append_assoc, he, List.takeWhile_append_dropWhile]⟩
  · rintro ⟨lead, hlead, rest, he⟩
    exact ⟨lead.toList, rest, hlead.decorative, by rw [← he, List.append_assoc]⟩

/-! ## Cleaning -/

theorem toList_clean (comment : String) :
    (clean comment).toList = cleanChars comment.toList := String.toList_ofList

/-- Nothing is left of a hidden comment. -/
theorem clean_of_isHidden {comment : String} (h : IsHidden comment) : clean comment = "" := by
  rw [← String.toList_inj, toList_clean, cleanChars,
    if_pos (List.isPrefixOf_iff_prefix.mpr (isHidden_iff.mp h))]
  rfl

-- And of any other comment all but its decoration.
theorem toList_clean_of_not_isHidden {comment : String} (h : ¬ IsHidden comment) :
    (clean comment).toList = comment.toList.dropWhile isDecoration := by
  rw [toList_clean, cleanChars,
    if_neg (mt List.isPrefixOf_iff_prefix.mp (mt isHidden_iff.mpr h))]

-- What is dropped does not come to the front.
theorem not_prefix_dropWhile {p : Char → Bool} {c : Char} (hc : p c = true) (l : List Char) :
    ¬ [c] <+: l.dropWhile p := by
  rintro ⟨rest, he⟩
  have hne : l.dropWhile p ≠ [] := by rw [← he]; exact List.cons_ne_nil _ _
  have hfirst := List.head_dropWhile_not p hne
  simp only [← he, List.singleton_append, List.head_cons, hc] at hfirst
  cases hfirst

-- And nothing is dropped from what begins otherwise.
theorem dropWhile_eq_self {p : Char → Bool} {l : List Char} (h : ∀ c, p c = true → ¬ [c] <+: l) :
    l.dropWhile p = l := by
  cases l with
  | nil => rfl
  | cons c rest =>
    apply List.dropWhile_cons_of_neg
    intro hc
    exact h c hc ⟨rest, rfl⟩

theorem isShown_empty : IsShown "" := by
  constructor
  · intro c _
    rw [String.toList_empty, List.prefix_nil]
    exact List.cons_ne_nil _ _
  · rw [String.toList_empty, List.prefix_nil, toList_mark]
    exact List.cons_ne_nil _ _

/-- Whatever is cleaned may be shown. -/
theorem isShown_clean (comment : String) : IsShown (clean comment) := by
  by_cases h : IsHidden comment
  · rw [clean_of_isHidden h]
    exact isShown_empty
  · constructor
    · intro c hc
      rw [toList_clean_of_not_isHidden h]
      exact not_prefix_dropWhile (isDecoration_iff.mpr hc) _
    · rw [toList_clean_of_not_isHidden h, toList_mark]
      exact mt isHidden_iff.mpr h

/-- Cleaning leaves just those texts as they are that may be shown. -/
theorem clean_eq_self_iff {text : String} : clean text = text ↔ IsShown text := by
  constructor
  · intro h
    rw [← h]
    exact isShown_clean text
  · intro h
    have hdrop : text.toList.dropWhile isDecoration = text.toList :=
      dropWhile_eq_self fun c hc ↦ h.undecorated c (isDecoration_iff.mp hc)
    have hmark : ¬ IsHidden text := by
      rw [isHidden_iff, hdrop, ← toList_mark]
      exact h.unmarked
    rw [← String.toList_inj, toList_clean_of_not_isHidden hmark, hdrop]

instance (text : String) : Decidable (IsShown text) := decidable_of_iff _ clean_eq_self_iff

theorem clean_append {front : String} (h : IsDecorative front) (comment : String) :
    clean (front ++ comment) = clean comment := by
  rw [← String.toList_inj, toList_clean, toList_clean, cleanChars, cleanChars,
    String.toList_append, List.dropWhile_append_of_pos fun c hc ↦ isDecoration_iff.mpr (h c hc)]

/-- What is cut from a comment that is not hidden is decoration. -/
theorem clean_eq_empty_or_cut (comment : String) :
    clean comment = "" ∨ ∃ cut, IsDecorative cut ∧ comment = cut ++ clean comment := by
  by_cases h : IsHidden comment
  · exact .inl (clean_of_isHidden h)
  · refine .inr ⟨_, (isLead_takeWhile comment).decorative, ?_⟩
    rw [← String.toList_inj, String.toList_append, String.toList_ofList,
      toList_clean_of_not_isHidden h, List.takeWhile_append_dropWhile]

theorem clean_eq_empty_iff {comment : String} :
    clean comment = "" ↔ IsDecorative comment ∨ IsHidden comment := by
  by_cases h : IsHidden comment
  · exact iff_of_true (clean_of_isHidden h) (.inr h)
  · rw [← String.toList_inj, toList_clean_of_not_isHidden h, or_iff_left h]
    exact isDecorative_iff.symm

end Comment

/-! ## Trimming -/

namespace Text

theorem toList_trim (s : String) :
    (trim s).toList = (s.toList.dropWhile isBlank).rdropWhile isBlank := String.toList_ofList

/-- A text that is empty or ends in a character that is not blank. -/
def EndsVisibly (s : String) : Prop :=
  s = "" ∨ ∃ text c, s.toList = text ++ [c] ∧ isBlank c = false

theorem endsVisibly_trim (s : String) : EndsVisibly (trim s) := by
  by_cases h : (s.toList.dropWhile isBlank).rdropWhile isBlank = []
  · left
    rw [← String.toList_inj, toList_trim, h]
    rfl
  · have hlast := List.rdropWhile_last_not isBlank _ h
    rw [EndsVisibly, toList_trim]
    exact .inr ⟨_, _, (List.dropLast_append_getLast h).symm, eq_false_of_ne_true hlast⟩

-- What stands at the end of such a text ends as the text does.
theorem EndsVisibly.of_suffix {s t : String} (h : EndsVisibly t) (hs : s.toList <:+ t.toList) :
    EndsVisibly s := by
  rcases List.eq_nil_or_concat' s.toList with hnil | ⟨text, c, hlast⟩
  · exact .inl (String.toList_inj.mp hnil)
  · refine .inr ⟨text, c, hlast, ?_⟩
    obtain ⟨front, he⟩ := hs
    rw [hlast, ← List.append_assoc] at he
    rcases h with rfl | ⟨text', c', ht, hc⟩
    · exact absurd he (List.append_ne_nil_of_right_ne_nil _ (List.cons_ne_nil _ _))
    · obtain ⟨-, hsame⟩ := List.append_inj' (he.trans ht) rfl
      rwa [List.singleton_inj.mp hsame]

-- A start without blanks is kept when the blanks at the end are dropped.
theorem prefix_rdropWhile_iff {front text : List Char} (h : front.any isBlank = false) :
    front <+: text.rdropWhile isBlank ↔ front <+: text := by
  have hkept : text.rdropWhile isBlank <+: text := List.rdropWhile_prefix _ _
  constructor
  · intro hf
    exact hf.trans hkept
  · intro hf
    rcases List.prefix_or_prefix_of_prefix hf hkept with hp | ⟨more, he⟩
    · exact hp
    · obtain ⟨tail, htail⟩ := hf
      -- What the start would have beyond the kept text was dropped, so it is blank.
      have hdropped : text.rtakeWhile isBlank = more ++ tail := by
        have hsplit : text.rdropWhile isBlank ++ text.rtakeWhile isBlank = text :=
          List.rdropWhile_append_rtakeWhile
        have hboth : text = text.rdropWhile isBlank ++ (more ++ tail) := by
          rw [← List.append_assoc, he, htail]
        exact List.append_cancel_left (hsplit.trans hboth)
      have hnone : more = [] := by
        apply List.eq_nil_iff_forall_not_mem.mpr
        intro c hc
        have hblank : isBlank c = true :=
          List.mem_rtakeWhile_imp (hdropped ▸ List.mem_append_left tail hc)
        have hstart : c ∈ front := he ▸ List.mem_append_right _ hc
        exact List.any_eq_false.mp h c hstart hblank
      have hkeep : front = text.rdropWhile isBlank := by
        rw [← he, hnone, List.append_nil]
      exact hkeep ▸ List.prefix_rfl

/-- Trimming brings to the front what stands behind blanks, and it alone tells whether the text may
be shown. -/
theorem isShown_trim_iff {s : String} :
    Comment.IsShown (trim s) ↔ Comment.IsShown (String.ofList (dropLeading isBlank s.toList)) := by
  have htext : (String.ofList (dropLeading isBlank s.toList)).toList =
      s.toList.dropWhile isBlank := String.toList_ofList
  have hfirst : ∀ c, [c] <+: (trim s).toList ↔ [c] <+: s.toList.dropWhile isBlank := by
    intro c
    rw [toList_trim]
    by_cases hc : isBlank c = true
    · have hno := Comment.not_prefix_dropWhile hc s.toList
      exact iff_of_false (fun h ↦ hno (h.trans (List.rdropWhile_prefix _ _))) hno
    · apply prefix_rdropWhile_iff
      rw [List.any_cons, List.any_nil, Bool.or_false]
      exact eq_false_of_ne_true hc
  have hmark : "@exclude".toList <+: (trim s).toList ↔
      "@exclude".toList <+: s.toList.dropWhile isBlank := by
    rw [toList_trim]
    exact prefix_rdropWhile_iff (by decide)
  constructor
  · intro h
    refine ⟨fun c hc ↦ ?_, ?_⟩
    · rw [htext, ← hfirst]
      exact h.undecorated c hc
    · rw [htext, ← hmark]
      exact h.unmarked
  · intro h
    refine ⟨fun c hc ↦ ?_, ?_⟩
    · rw [hfirst, ← htext]
      exact h.undecorated c hc
    · rw [hmark, ← htext]
      exact h.unmarked

end Text

/-! ## Descriptions -/

/-- A description ends as the joined comments do. -/
theorem Source.endsVisibly_description (s : Source) : Text.EndsVisibly s.description := by
  rcases Comment.clean_eq_empty_or_cut (Comment.join [s.leading, s.trailing]) with
    hempty | ⟨cut, -, hcut⟩
  · exact .inl hempty
  · have hjoin : Text.EndsVisibly (Comment.join [s.leading, s.trailing]) := Text.endsVisibly_trim _
    refine hjoin.of_suffix ⟨cut.toList, ?_⟩
    rw [← String.toList_append]
    exact congrArg String.toList hcut.symm

/-- Cleaning gives a normal form.  What is left of a comment is empty, or it is the comment without
decoration that stood in front, and may be shown.  Cleaning it again changes nothing, and neither
does more decoration in front of the comment.  The description that a source has by its two comments
is empty or does not end in a blank, and it is empty just where the joined comments are nothing but
decoration or have the mark of hidden comments right behind their lead. -/
theorem clean_normal_form (comment front : String) (s : Source) :
    (Comment.clean comment = "" ∨
      (∃ cut, Comment.IsDecorative cut ∧ comment = cut ++ Comment.clean comment) ∧
        Comment.IsShown (Comment.clean comment)) ∧
    Comment.clean (Comment.clean comment) = Comment.clean comment ∧
    (Comment.IsDecorative front → Comment.clean (front ++ comment) = Comment.clean comment) ∧
    Text.EndsVisibly s.description ∧
    (s.description = "" ↔ Comment.IsDecorative (Comment.join [s.leading, s.trailing]) ∨
      ∃ lead, Comment.IsLead lead (Comment.join [s.leading, s.trailing]) ∧
        lead.toList ++ "@exclude".toList <+: (Comment.join [s.leading, s.trailing]).toList) := by
  have hshown := Comment.isShown_clean comment
  refine ⟨?_, Comment.clean_eq_self_iff.mpr hshown, fun h ↦ Comment.clean_append h comment,
    s.endsVisibly_description, ?_⟩
  · exact (Comment.clean_eq_empty_or_cut comment).imp_right fun hcut ↦ ⟨hcut, hshown⟩
  · rw [← Comment.isHidden_iff_exists_lead]
    exact Comment.clean_eq_empty_iff

/-- The source of a declaration with a comment on either side. -/
def orderSource : Source := ⟨"order.proto", [4, 0], 3, 5, "* An order.", "See the cart. "⟩

/-- The decoration goes that stands in front of the text, the blank goes that stands behind it, and
what stands between the two comments stays. -/
theorem clean_normal_form_order :
    Comment.IsDecorative "/**\n" ∧ Comment.clean ("/**\n" ++ "* An order.") = "An order." ∧
    (∃ cut, Comment.IsDecorative cut ∧ "* An order." = cut ++ Comment.clean "* An order.") ∧
    Comment.IsShown (Comment.clean "* An order.") ∧
    orderSource.description = "An order.\n\nSee the cart." ∧
    Text.EndsVisibly orderSource.description ∧
    ¬ Comment.IsDecorative (Comment.join [orderSource.leading, orderSource.trailing]) := by
  obtain ⟨hcut, -, hfront, hends, hempty⟩ :=
    clean_normal_form "* An order." "/**\n" orderSource
  have hclean : Comment.clean "* An order." = "An order." := by decide +kernel
  have hdescription : orderSource.description = "An order.\n\nSee the cart." := by decide +kernel
  have hdecorative : Comment.IsDecorative "/**\n" := by decide +kernel
  obtain ⟨hcut, hshown⟩ := hcut.resolve_left (by rw [hclean]; decide)
  refine ⟨hdecorative, (hfront hdecorative).trans hclean, hcut, hshown, hdescription, hends, ?_⟩
  intro hall
  have hnone := hempty.mpr (.inl hall)
  rw [hdescription] at hnone
  exact absurd hnone (by decide)

end ProtoCatalog
