import ChannelPreset.Proofs.Preset.Extension
import ChannelPreset.Proofs.Preset.Pairs

/-!
# The Grammar of Headers

A header is read from pairs of three kinds (`Header.Pair`), each with a name of its own. Reading
accepts the tokens of such pairs and a count, up to the first place where the count is the number of
complete pairs, and of all pairs with one name the last one gives the value
(`Header.decode_eq_ok_iff_begins`).
-/

namespace ChannelPreset

namespace Header

/-- A complete pair of a header. -/
inductive Pair where
  | version (value : Int32)
  | fileType (text : String)
  | userComment (text : String)
  deriving DecidableEq

namespace Pair

/-- The name that begins a pair. -/
def name : Pair → String
  | .version _ => versionName
  | .fileType _ => fileTypeName
  | .userComment _ => userCommentName

/-- The token behind the name. -/
def value : Pair → Token
  | .version value => .int32 value
  | .fileType text => .string text
  | .userComment text => .string text

def version? : Pair → Option Int32
  | .version value => some value
  | _ => none

def fileType? : Pair → Option String
  | .fileType text => some text
  | _ => none

def userComment? : Pair → Option String
  | .userComment text => some text
  | _ => none

end Pair

/-- How the pairs of a header are written. -/
def spelling : Spelling Pair where
  name := Pair.name
  value := Pair.value
  value_count? a := by cases a <;> rfl

/-- How many pairs are complete: each has two of the tokens that are no counts. -/
def completePairs (tokens : List Token) : Nat := (Token.others tokens).length / 2

/-- The header with the value of one more pair. -/
def assign (h : Header) : Pair → Header
  | .version value => { h with version := value }
  | .fileType text => { h with fileType := text }
  | .userComment text => { h with userComment := text }

/-- Of all pairs with one name the last one stays. -/
theorem foldl_assign (h : Header) (pairs : List Pair) :
    pairs.foldl assign h =
      { h with
        version := (last? Pair.version? pairs).getD h.version
        fileType := (last? Pair.fileType? pairs).getD h.fileType
        userComment := (last? Pair.userComment? pairs).getD h.userComment } := by
  induction pairs using List.reverseRecOn with
  | nil => rfl
  | append_singleton pairs a ih =>
    rw [List.foldl_append, ih]
    cases a <;> simp [assign, last?_concat, Pair.version?, Pair.fileType?, Pair.userComment?]

/-! ## The loop -/

namespace Progress

/-- A header takes a token as its spelling says. -/
theorem step_eq_ok_iff {p : Reading Header} {q : Progress} {c c' : Cursor} :
    loop.step ⟨p.made, p.pending, p.tally⟩ c = .ok (q, c') ↔
      ∃ token r, Token.read? c = some (token, c') ∧
        spelling.Takes (fun h a => some (h.assign a)) p token r ∧
        q = ⟨r.made, r.pending, r.tally⟩ := by
  obtain ⟨made, pending, tally⟩ := p
  constructor
  · intro hstep
    obtain ⟨move, hnext, rfl⟩ := exists_next hstep
    rcases next_cases hnext with
      ⟨count, hread, hnone, rfl⟩ | ⟨value, hread, hmove⟩ | ⟨text, hread, hmove⟩
    · exact ⟨_, _, hread, .count count hnone, rfl⟩
    · obtain ⟨rfl, rfl⟩ := int32_eq_ok hmove
      exact ⟨_, _, hread, .value (Pair.version value) rfl, rfl⟩
    · -- a text is a name or one of two values
      rcases string_eq_ok hmove with ⟨rfl, rfl⟩ | ⟨rfl, rfl⟩ | ⟨rfl, rfl⟩
      · exact ⟨_, _, hread, .name text, rfl⟩
      · exact ⟨_, _, hread, .value (Pair.fileType text) rfl, rfl⟩
      · exact ⟨_, _, hread, .value (Pair.userComment text) rfl, rfl⟩
  · rintro ⟨token, r, hread, htakes, rfl⟩
    cases htakes with
    | count count hnone => exact takes_tokenCount hnone count _ _ hread
    | name text => exact takes_string (.name text) rfl _ _ hread
    | value a hstore =>
      obtain rfl := Option.some_inj.1 hstore
      cases a with
      | version value => exact takes_int32 (.version value) rfl _ _ hread
      | fileType text => exact takes_string (.fileType text) rfl _ _ hread
      | userComment text => exact takes_string (.userComment text) rfl _ _ hread

theorem step_of_end {p : Progress} {c : Cursor} (h : c.rest = []) :
    loop.step p c = .error p.tally.shortfall := by
  show (p.next c).map _ = _
  rw [next, Cursor.tag_of_end h]
  rfl

/-- The loop of a header reads pairs. -/
def pairLoop : PairLoop Pair Header Progress where
  toLoop := loop
  spelling := spelling
  store h a := some (h.assign a)
  complete := completePairs
  complete_eq h := h.length_others_div_two
  state p := ⟨p.made, p.pending, p.tally⟩
  finished_state _ := rfl
  step_state_eq_ok_iff := step_eq_ok_iff
  step_state_of_end := step_of_end

end Progress

/-! ## The grammar -/

/-- No pair is refused. -/
theorem foldlM_store (h : Header) (pairs : List Pair) :
    pairs.foldlM Progress.pairLoop.store h = some (pairs.foldl assign h) :=
  List.foldlM_pure

variable {old h : Header} {bs : Bytes} {n : Nat}

/-- A header is made of the pairs that are read up to the first place where the count is met. -/
theorem decode_eq_ok_iff :
    old.decode bs = .ok (h, n) ↔
      ∃ tokens count pairs pending,
        Token.Reads (.start bs) tokens ⟨n, bs.drop n⟩ ∧
        spelling.Begins completePairs tokens (some count) pairs pending ∧
        count.toInt = pairs.length ∧ h = { pairs.foldl assign old with tokenCount := count } := by
  rw [decode_eq_map]
  refine (Progress.pairLoop.map_run_eq_ok_iff Progress.result).trans ?_
  refine exists₄_congr fun tokens count pairs pending => ?_
  -- the count that is kept is the number of pairs
  constructor
  · rintro ⟨made, hreads, hbegins, hmade, hcount, rfl⟩
    rw [foldlM_store] at hmade
    obtain rfl := Option.some_inj.1 hmade
    refine ⟨hreads, hbegins, hcount, ?_⟩
    rw [← ofNat_eq_of_toInt_eq hcount]
    rfl
  · rintro ⟨hreads, hbegins, hcount, rfl⟩
    refine ⟨_, hreads, hbegins, foldlM_store old pairs, hcount, ?_⟩
    rw [← ofNat_eq_of_toInt_eq hcount]
    rfl

/-- A header is read from pairs of its spelling and a count, up to the first place where the count
is the number of complete pairs; a name that waits for its value there has the count behind it. The
last value of each name is taken, and a name without a value leaves the earlier one. The bytes
behind that place are the ones that the body is read from. -/
theorem decode_eq_ok_iff_begins (old : Header) (bs : Bytes) :
    (∀ h n, old.decode bs = .ok (h, n) ↔
      ∃ tokens count pairs pending,
        Token.Reads (.start bs) tokens ⟨n, bs.drop n⟩ ∧
        spelling.Begins completePairs tokens (some count) pairs pending ∧
        count.toInt = pairs.length ∧
        (pending ≠ none → tokens.getLast? = some (.tokenCount count)) ∧
        h = { tokenCount := count
              version := (last? Pair.version? pairs).getD old.version
              fileType := (last? Pair.fileType? pairs).getD old.fileType
              userComment := (last? Pair.userComment? pairs).getD old.userComment }) ∧
    ∀ input c h n, Preset.opening input = .ok c → c.rest = bs →
      Header.initial.decode bs = .ok (h, n) →
      Preset.decode input = match Body.initial.decode (bs.drop n) with
        | .ok (body, _) => .ok { header := h, body }
        | .error e => .error (.within .body e) := by
  constructor
  · intro h n
    refine decode_eq_ok_iff.trans (exists₄_congr fun tokens count pairs pending => ?_)
    refine and_congr_right fun _ => and_congr_right fun hbegins => and_congr_right fun hcount => ?_
    -- the place of the count behind an open name follows from the rest
    have hlast : pending ≠ none → tokens.getLast? = some (.tokenCount count) := by
      intro hpending
      obtain ⟨text, rfl⟩ := Option.ne_none_iff_exists'.1 hpending
      exact hbegins.getLast?_eq_of_pending Progress.pairLoop.complete_eq hcount
    rw [foldl_assign]
    exact ⟨fun hh => ⟨hlast, hh⟩, And.right⟩
  · intro input c h n hopening hrest hheader
    subst hrest
    exact Preset.decode_of_body hopening hheader

/-- The tokens of a header with two versions, a name without a value, and the count at the end. -/
def lateTokens : List Token :=
  [.string versionName, .int32 7, .string versionName, .int32 5, .string "", .tokenCount 2]

theorem decode_eq_ok_iff_begins_late :
    Header.initial.decode (Token.encodeAll lateTokens)
        = .ok ({ Header.initial with tokenCount := 2, version := 5 }, 35) ∧
      Preset.decode ((Token.string magic).encode ++ Token.encodeAll lateTokens)
        = .error (.within .body .missingTokenCount) := by
  obtain ⟨hiff, hbody⟩ := decode_eq_ok_iff_begins .initial (Token.encodeAll lateTokens)
  have hheader := (hiff _ 35).2 ⟨lateTokens, 2, [.version 7, .version 5], some "",
    by decide +kernel, by decide +kernel, rfl, fun _ => rfl, rfl⟩
  -- nothing is left for a body
  have hbody' : Body.initial.decode [] = .error .missingTokenCount := by
    rw [Body.decode_eq_map, Body.Progress.loop.run_of_step_error rfl rfl]
    rfl
  have hpreset := hbody ((Token.string magic).encode ++ Token.encodeAll lateTokens) _ _ _ rfl rfl
    hheader
  rw [show (Token.encodeAll lateTokens).drop 35 = [] from rfl, hbody'] at hpreset
  exact ⟨hheader, hpreset⟩

end Header

end ChannelPreset
