import ChannelPreset.Files.Path

/-!
# Paths and their Pieces

A path text is its pieces with slashes between them, and only the pieces that are not idle say where
it leads. A path that ends with a name lies in its parent: the parent has the same pieces in front
of the name, idle ones apart, and begins where the path begins.
-/

namespace ChannelPreset.Path

/-! ## Cutting and joining -/

theorem cut_eq_splitOnP (isSeparator : Char → Bool) (cs : List Char) :
    cut isSeparator cs = cs.splitOnP isSeparator := by
  induction cs with
  | nil => rw [cut, List.splitOnP_nil]
  | cons c cs ih =>
    rw [cut, ih, List.splitOnP_cons_eq_if_modifyHead]
    split
    · rfl
    · cases h : cs.splitOnP isSeparator with
      | nil => exact absurd h (List.splitOnP_ne_nil _ _)
      | cons piece pieces => rfl

/-- The characters of the pieces are those of the text that are no separators. -/
theorem mem_of_mem_cut {isSeparator : Char → Bool} {cs piece : List Char}
    (hpiece : piece ∈ cut isSeparator cs) {c : Char} (hc : c ∈ piece) :
    c ∈ cs ∧ isSeparator c = false := by
  rw [cut_eq_splitOnP] at hpiece
  induction cs generalizing piece with
  | nil =>
    rw [List.splitOnP_nil, List.mem_singleton] at hpiece
    rw [hpiece] at hc
    cases hc
  | cons d cs ih =>
    -- a character either ends the piece in front of it or stands at the head of the next one
    obtain ⟨first, rest, hcs⟩ := List.exists_cons_of_ne_nil (List.splitOnP_ne_nil isSeparator cs)
    rw [hcs] at ih
    have hbehind : ∀ piece ∈ first :: rest, c ∈ piece → c ∈ d :: cs ∧ isSeparator c = false :=
      fun piece hpiece hc => (ih hpiece hc).imp_left (List.mem_cons_of_mem d)
    rw [List.splitOnP_cons_eq_if_modifyHead, hcs, List.modifyHead_cons] at hpiece
    split at hpiece
    · rcases List.mem_cons.1 hpiece with rfl | hpiece
      · cases hc
      · exact hbehind piece hpiece hc
    · rename_i hd
      rcases List.mem_cons.1 hpiece with rfl | hpiece
      · rcases List.mem_cons.1 hc with rfl | hc
        · exact ⟨List.mem_cons_self, Bool.eq_false_iff.2 hd⟩
        · exact hbehind first List.mem_cons_self hc
      · exact hbehind piece (List.mem_cons_of_mem _ hpiece) hc

theorem pieces_eq_map_splitOn (text : String) :
    pieces text = (text.toList.splitOn '/').map String.ofList := by
  rw [pieces, cut_eq_splitOnP, List.splitOn_eq_splitOnP]

@[simp]
theorem pieces_ne_nil (text : String) : pieces text ≠ [] := by
  rw [pieces_eq_map_splitOn, Ne, List.map_eq_nil_iff]
  exact List.splitOn_ne_nil _ _

theorem pieces_append (front back : String) :
    pieces (front ++ "/" ++ back) = pieces front ++ pieces back := by
  have h : (front ++ "/" ++ back).toList = front.toList ++ '/' :: back.toList := by
    simp
  simp only [pieces_eq_map_splitOn]
  rw [h, List.splitOn_append_cons_self, List.map_append]

theorem pieces_of_notMem {piece : String} (h : '/' ∉ piece.toList) : pieces piece = [piece] := by
  rw [pieces_eq_map_splitOn, List.splitOn_eq_singleton h, List.map_singleton, String.ofList_toList]

@[simp]
theorem pieces_empty : pieces "" = [""] :=
  pieces_of_notMem (by simp)

theorem mem_of_mem_pieces {text piece : String} (h : piece ∈ pieces text) {c : Char}
    (hc : c ∈ piece.toList) : c ∈ text.toList ∧ c ≠ '/' := by
  rw [pieces, List.mem_map] at h
  obtain ⟨cs, hcs, rfl⟩ := h
  rw [String.toList_ofList] at hc
  exact (mem_of_mem_cut hcs hc).imp_right beq_eq_false_iff_ne.1

theorem notMem_of_mem_pieces {text piece : String} (h : piece ∈ pieces text) :
    '/' ∉ piece.toList :=
  fun hmem => (mem_of_mem_pieces h hmem).2 rfl

theorem pieces_intercalate {parts : List String} (hne : parts ≠ [])
    (h : ∀ part ∈ parts, '/' ∉ part.toList) : pieces ("/".intercalate parts) = parts := by
  induction parts with
  | nil => exact absurd rfl hne
  | cons part parts ih =>
    have hpart := pieces_of_notMem (h part List.mem_cons_self)
    cases parts with
    | nil => rw [String.intercalate_singleton, hpart]
    | cons next parts =>
      rw [String.intercalate_cons_cons, pieces_append, hpart,
        ih (List.cons_ne_nil _ _) fun part hp => h part (List.mem_cons_of_mem _ hp)]
      rfl

theorem intercalate_pieces (text : String) : "/".intercalate (pieces text) = text := by
  rw [← String.toList_inj, String.toList_intercalate, pieces_eq_map_splitOn, List.map_map]
  -- only lists of characters are cut, and the texts of the pieces hold the same characters
  have h : String.toList ∘ String.ofList = id := by
    funext cs
    exact String.toList_ofList
  rw [h, List.map_id]
  exact List.intercalate_splitOn '/'

theorem prefix_toList_intercalate {text : String} {front : List String}
    (h : front <+: pieces text) : ("/".intercalate front).toList <+: text.toList := by
  obtain ⟨back, hback⟩ := h
  rw [← intercalate_pieces text, ← hback]
  by_cases hfront : front = []
  · rw [hfront]
    exact List.nil_prefix
  · by_cases hnil : back = []
    · simp only [hnil, List.append_nil, List.prefix_rfl]
    · rw [String.intercalate_append_of_ne_nil hfront hnil, String.append_assoc,
        String.toList_append]
      exact List.prefix_append _ _

/-! ## Names -/

/-- The pieces of a path text that are not idle. -/
def names (text : String) : List String :=
  (pieces text).filter (!isIdle ·)

theorem isIdle_iff {piece : String} : isIdle piece = true ↔ piece = "" ∨ piece = "." := by
  simp [isIdle]

theorem isIdle_eq_false_iff {piece : String} :
    isIdle piece = false ↔ piece ≠ "" ∧ piece ≠ "." := by
  rw [← Bool.not_eq_true, isIdle_iff, not_or]

@[simp]
theorem isIdle_empty : isIdle "" = true := rfl

@[simp]
theorem isIdle_dot : isIdle "." = true := rfl

theorem names_append (front back : String) :
    names (front ++ "/" ++ back) = names front ++ names back := by
  rw [names, pieces_append, List.filter_append, names, names]

theorem names_of_isIdle {piece : String} (h : isIdle piece = true) : names piece = [] := by
  rcases isIdle_iff.1 h with rfl | rfl
  · rw [names, pieces_empty]
    rfl
  · rw [names, pieces_of_notMem (by simp)]
    rfl

theorem names_intercalate {parts : List String} (h : ∀ part ∈ parts, '/' ∉ part.toList) :
    names ("/".intercalate parts) = parts.filter (!isIdle ·) := by
  cases parts with
  | nil => exact names_of_isIdle rfl
  | cons part parts => rw [names, pieces_intercalate (List.cons_ne_nil _ _) h]

/-- A list without the idle pieces at its end. -/
def trim (parts : List String) : List String :=
  (parts.reverse.dropWhile isIdle).reverse

theorem prefix_trim (parts : List String) : trim parts <+: parts := by
  have h := List.reverse_prefix.2 (List.dropWhile_suffix isIdle (l := parts.reverse))
  rwa [List.reverse_reverse] at h

theorem filter_trim (parts : List String) :
    (trim parts).filter (!isIdle ·) = parts.filter (!isIdle ·) := by
  -- idle pieces are dropped from the front of the reversed list
  have h : ∀ l : List String, (l.dropWhile isIdle).filter (!isIdle ·) = l.filter (!isIdle ·) := by
    intro l
    induction l with
    | nil => rfl
    | cons a l ih => cases ha : isIdle a <;> simp [ha, ih]
  rw [trim, List.filter_reverse, h, List.filter_reverse, List.reverse_reverse]

/-! ## Where a path begins -/

theorem isAbsolute_slash_append (back : String) : isAbsolute ("/" ++ back) = true := by
  simp [isAbsolute]

/-- What stands behind the lead of a path. -/
def behind (text : String) : String :=
  String.ofList (text.toList.drop (lead text).length)

theorem lead_cases (text : String) :
    (lead text = "/" ∧ text = "/" ++ behind text) ∨
    (lead text = "." ∧ text = "." ∧ behind text = "") ∨
    (lead text = "." ∧ ∃ back, text = "." ++ "/" ++ back ∧ behind text = "/" ++ back) ∨
    (lead text = "" ∧ isAbsolute text = false ∧ behind text = text) := by
  have hslash : "/".length = 1 := by decide
  have hdot : ".".length = 1 := by decide
  have hlead := lead.eq_def text
  split at hlead
  · rename_i cs h
    refine .inl ⟨hlead, ?_⟩
    rw [behind, hlead, h, hslash, ← String.toList_inj, h]
    simp
  · rename_i h
    refine .inr (.inl ⟨hlead, ?_, ?_⟩)
    · rw [← String.toList_inj, h]
      simp
    · rw [behind, hlead, h, hdot]
      simp
  · rename_i cs h
    refine .inr (.inr (.inl ⟨hlead, String.ofList cs, ?_, ?_⟩))
    · rw [← String.toList_inj, h]
      simp
    · rw [behind, hlead, h, hdot, ← String.toList_inj]
      simp
  · rename_i h _ _
    refine .inr (.inr (.inr ⟨hlead, ?_, ?_⟩))
    · rw [isAbsolute]
      cases hcs : text.toList with
      | nil => rfl
      | cons c cs =>
        have hc : c ≠ '/' := fun hc => h cs (by rw [hcs, hc])
        simpa using hc
    · rw [behind, hlead]
      simp

theorem lead_append_behind (text : String) : text = lead text ++ behind text := by
  rcases lead_cases text with ⟨hlead, h⟩ | ⟨hlead, h, hbehind⟩ | ⟨hlead, back, h, hbehind⟩ |
    ⟨hlead, -, hbehind⟩
  · rwa [hlead]
  · rwa [hlead, hbehind]
  · rwa [hlead, hbehind, ← String.append_assoc]
  · rw [hlead, hbehind, String.empty_append]

theorem isAbsolute_eq (text : String) : isAbsolute text = (lead text == "/") := by
  rcases lead_cases text with ⟨hlead, htext⟩ | ⟨hlead, htext, -⟩ | ⟨hlead, back, htext, -⟩ |
    ⟨hlead, habsolute, -⟩
  · rw [hlead, htext, isAbsolute_slash_append]
    rfl
  · rw [hlead, htext]
    rfl
  · rw [hlead, htext]
    simp [isAbsolute]
  · rw [hlead, habsolute]
    rfl

theorem eq_slash_append_of_isAbsolute {text : String} (h : isAbsolute text = true) :
    text = "/" ++ behind text := by
  rw [isAbsolute_eq, beq_iff_eq] at h
  rcases lead_cases text with ⟨-, htext⟩ | ⟨hlead, -⟩ | ⟨hlead, -⟩ | ⟨hlead, -⟩
  · exact htext
  all_goals
    rw [h] at hlead
    exact absurd hlead (by decide)

/-- A path begins at the root if a front of it does. -/
theorem isAbsolute_of_isAbsolute_front {front text : String} (h : front.toList <+: text.toList)
    (hfront : isAbsolute front = true) : isAbsolute text = true := by
  rw [eq_slash_append_of_isAbsolute hfront, String.toList_append] at h
  obtain ⟨back, hback⟩ := h
  rw [isAbsolute, ← hback]
  simp

/-! ## Parents -/

theorem pieces_slash_append (back : String) : pieces ("/" ++ back) = "" :: pieces back := by
  have h := pieces_append "" back
  rwa [pieces_empty, String.empty_append] at h

theorem exists_pieces_behind {text name : String} {front : List String}
    (h : pieces text = front ++ [name]) (hname : isIdle name = false) :
    ∃ inner, pieces (behind text) = inner ++ [name] ∧
      inner.filter (!isIdle ·) = front.filter (!isIdle ·) ∧
      (lead text = "." → ∃ rest, inner = "" :: rest) ∧ (lead text = "" → inner = front) := by
  rcases lead_cases text with ⟨hlead, htext⟩ | ⟨-, htext, -⟩ | ⟨hlead, back, htext, hbehind⟩ |
    ⟨hlead, -, hbehind⟩
  · rw [htext, pieces_slash_append, List.cons_eq_append_iff] at h
    obtain ⟨-, h⟩ | ⟨inner, rfl, h⟩ := h
    · exact absurd (List.tail_eq_of_cons_eq h).symm (pieces_ne_nil _)
    · refine ⟨inner, h, rfl, ?_, ?_⟩
      · rw [hlead]
        exact fun h => absurd h (by decide)
      · rw [hlead]
        exact fun h => absurd h (by decide)
  · -- a dot alone ends with no name
    rw [htext, pieces_of_notMem (by simp)] at h
    have happend : [] ++ ["."] = front ++ [name] := h
    rw [← List.singleton_inj.1 (List.append_inj' happend rfl).2] at hname
    cases hname
  · rw [htext, pieces_append, pieces_of_notMem (by simp), List.singleton_append,
      List.cons_eq_append_iff] at h
    obtain ⟨-, h⟩ | ⟨inner, rfl, h⟩ := h
    · exact absurd (List.tail_eq_of_cons_eq h).symm (pieces_ne_nil _)
    · refine ⟨"" :: inner, ?_, rfl, fun _ => ⟨inner, rfl⟩, ?_⟩
      · rw [hbehind, pieces_slash_append, h]
        rfl
      · rw [hlead]
        exact fun h => absurd h (by decide)
  · refine ⟨front, by rw [hbehind, h], rfl, ?_, fun _ => rfl⟩
    rw [hlead]
    exact fun h => absurd h (by decide)

theorem names_dot_append {rest : List String} (h : ∀ part ∈ rest, '/' ∉ part.toList) :
    names ("." ++ "/".intercalate ("" :: rest)) = rest.filter (!isIdle ·) := by
  cases rest with
  | nil => exact names_of_isIdle rfl
  | cons part rest =>
    have htext : "." ++ "/".intercalate ("" :: part :: rest) =
        "." ++ "/" ++ "/".intercalate (part :: rest) := by
      rw [String.intercalate_cons_cons, String.empty_append, String.append_assoc]
    rw [htext, names_append, names_of_isIdle isIdle_dot, names_intercalate h, List.nil_append]

theorem reversedPieces_eq {text name : String} {inner : List String}
    (h : pieces (behind text) = inner ++ [name]) (hname : isIdle name = false) :
    reversedPieces text = name :: inner.reverse := by
  rw [reversedPieces, ← behind, h, List.reverse_append, List.reverse_singleton,
    List.singleton_append, List.dropWhile_cons_of_neg (by simp [hname])]

theorem fileName?_eq_some {text name : String} {front : List String}
    (h : pieces text = front ++ [name]) (hname : isIdle name = false) (hdots : name ≠ "..") :
    fileName? text = some name := by
  obtain ⟨inner, hinner, -⟩ := exists_pieces_behind h hname
  rw [fileName?, reversedPieces_eq hinner hname]
  simp [hdots]

/-- The parent of a path that ends with a name begins where the path begins, and has the names in
front of that name. -/
theorem parent?_eq_some {text name : String} {front : List String}
    (h : pieces text = front ++ [name]) (hname : isIdle name = false) :
    ∃ parent, parent? text = some parent ∧ names parent = front.filter (!isIdle ·) ∧
      (parent ≠ "" → isAbsolute parent = isAbsolute text) ∧
      (parent = "" → isAbsolute text = false) := by
  obtain ⟨inner, hinner, hfilter, hdot, hempty⟩ := exists_pieces_behind h hname
  -- the parent is joined from pieces, so it is cut into the same pieces again
  have hslash : ∀ part ∈ trim inner, '/' ∉ part.toList := by
    intro part hpart
    have hmem : part ∈ pieces (behind text) := by
      rw [hinner]
      exact List.mem_append_left _ ((prefix_trim inner).subset hpart)
    exact notMem_of_mem_pieces hmem
  have hnames : names ("/".intercalate (trim inner)) = front.filter (!isIdle ·) := by
    rw [names_intercalate hslash, filter_trim, hfilter]
  refine ⟨lead text ++ "/".intercalate (trim inner), ?_, ?_⟩
  · rw [parent?, reversedPieces_eq hinner hname, trim]
  -- one case for each lead, since the parent begins with it
  have hlead : lead text = "/" ∨ lead text = "." ∨ lead text = "" := by
    rcases lead_cases text with ⟨h, -⟩ | ⟨h, -⟩ | ⟨h, -⟩ | ⟨h, -⟩ <;> simp [h]
  have habsolute := isAbsolute_eq text
  rcases hlead with hlead | hlead | hlead <;> rw [hlead] at habsolute ⊢
  · -- the slash in front adds an empty piece, which is idle
    have hparent := isAbsolute_slash_append ("/".intercalate (trim inner))
    refine ⟨?_, fun _ => by rw [hparent, habsolute]; rfl, fun hnil => ?_⟩
    · rw [names, pieces_slash_append, List.filter_cons_of_neg (by simp), ← names, hnames]
    · rw [hnil] at hparent
      cases hparent
  · refine ⟨?_, fun _ => by rw [habsolute]; simp [isAbsolute], fun _ => habsolute⟩
    -- the pieces behind a dot begin with the empty one between it and the slash
    obtain ⟨rest, hrest⟩ := hdot hlead
    rw [← hfilter, ← filter_trim]
    cases htrim : trim inner with
    | nil => exact names_of_isIdle rfl
    | cons part parts =>
      obtain ⟨back, hback⟩ := prefix_trim inner
      rw [htrim, hrest, List.cons_append] at hback
      obtain rfl := (List.cons.inj hback).1
      rw [names_dot_append fun part hp => hslash part (htrim ▸ List.mem_cons_of_mem _ hp)]
      rfl
  · rw [String.empty_append]
    refine ⟨hnames, fun _ => ?_, fun _ => habsolute⟩
    -- a slash in front of the parent would stand in front of the path too
    rw [habsolute]
    cases hparent : isAbsolute ("/".intercalate (trim inner)) with
    | false => rfl
    | true =>
      have hfront : trim inner <+: pieces text := by
        rw [h, ← hempty hlead]
        exact (prefix_trim inner).trans (List.prefix_append _ _)
      have hslashed := isAbsolute_of_isAbsolute_front (prefix_toList_intercalate hfront) hparent
      rw [hslashed] at habsolute
      cases habsolute

/-- A parent is the front of the path that it is the parent of. -/
theorem prefix_of_parent?_eq_some {text parent : String} (h : parent? text = some parent) :
    parent.toList <+: text.toList := by
  unfold parent? at h
  split at h
  · rename_i name front hreversed
    cases h
    have hfront : (front.dropWhile isIdle).reverse <+: pieces (behind text) := by
      have hsuffix : name :: front <:+ (pieces (behind text)).reverse := by
        rw [← hreversed]
        exact List.dropWhile_suffix _
      rw [← List.reverse_suffix, List.reverse_reverse]
      exact ((List.dropWhile_suffix _).trans (List.suffix_cons name front)).trans hsuffix
    have htext := congrArg String.toList (lead_append_behind text)
    rw [String.toList_append] at htext
    rw [String.toList_append, htext]
    exact (List.prefix_append_right_inj _).2 (prefix_toList_intercalate hfront)
  · split at h
    · cases h
      exact List.nil_prefix
    · cases h

end ChannelPreset.Path
