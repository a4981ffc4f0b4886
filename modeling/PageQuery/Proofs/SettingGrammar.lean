import PageQuery.Proofs.Capped
import PageQuery.Proofs.Crossing
import PageQuery.Proofs.TestedTerms
import PageQuery.Proofs.VariantNames
/-!
# What the variables of settings may say

Five variables are read, each with a grammar of its own and each of them optional.  Words are read between their blanks
and in either case, numbers as they stand.  Settings are read just if every variable that is there is in its grammar,
and otherwise the fault is that of the first one that is not.  A named backend counts before the one of the database
URL, which counts before Postgres; and what is set of a backend's capabilities replaces them for every backend alike.
-/
namespace PageQuery

/-! ## Words -/

/-- The text is the word, blanks at its ends and the case of A to Z aside. -/
def Spells (text word : String) : Prop :=
  ∃ before core after, text.toList = before ++ core ++ after ∧ (∀ c ∈ before ++ after, isBlank c = true) ∧
    sameAscii (String.ofList core) word = true

theorem exists_trimChars (cs : List Char) :
    ∃ before after, cs = before ++ trimChars cs ++ after ∧ ∀ c ∈ before ++ after, isBlank c = true := by
  have hstart : cs.takeWhile isBlank ++ cs.dropWhile isBlank = cs := List.takeWhile_append_dropWhile
  have hend := List.takeWhile_append_dropWhile (p := isBlank) (l := (cs.dropWhile isBlank).reverse)
  refine ⟨cs.takeWhile isBlank, ((cs.dropWhile isBlank).reverse.takeWhile isBlank).reverse, ?_, fun c hc => ?_⟩
  · rw [trimChars, List.append_assoc, ← List.reverse_append, hend, List.reverse_reverse, hstart]
  · rcases List.mem_append.1 hc with hc | hc
    · exact List.mem_takeWhile_imp hc
    · exact List.mem_takeWhile_imp (List.mem_reverse.1 hc)

theorem trimChars_append {before core after : List Char} (hblank : ∀ c ∈ before ++ after, isBlank c = true)
    (hcore : ∀ c ∈ core, isBlank c = false) : trimChars (before ++ core ++ after) = core := by
  obtain ⟨hbefore, hafter⟩ := List.forall_mem_append.1 hblank
  have hstops : ∀ {cs : List Char}, (∀ c ∈ cs, isBlank c = false) → cs.dropWhile isBlank = cs := fun hcs =>
    List.dropWhile_eq_self_iff.2 fun hl => by simp [hcs _ (List.getElem_mem hl)]
  have hfirst : ((core ++ after).dropWhile isBlank).reverse.dropWhile isBlank = core.reverse := by
    rw [List.dropWhile_append, hstops hcore]
    split
    · next hempty =>
      rw [List.isEmpty_iff.1 hempty, List.dropWhile_eq_nil_iff.2 hafter]
      rfl
    · rw [List.reverse_append, List.dropWhile_append_of_pos fun c hc => hafter c (List.mem_reverse.1 hc)]
      exact hstops fun c hc => hcore c (List.mem_reverse.1 hc)
  rw [trimChars, List.append_assoc, List.dropWhile_append_of_pos hbefore, hfirst, List.reverse_reverse]

theorem isBlank_of_printed {c : Char} (hleast : 33 ≤ c.toNat) (hgreatest : c.toNat ≤ 126) : isBlank c = false := by
  refine Bool.eq_false_iff.2 fun hblank => ?_
  obtain ⟨r, hr, hfirst, hlast⟩ := (CharSet.holds_iff _ _).1 hblank
  have hranges : ∀ r ∈ blankChars, r.2 < 33 ∨ 126 < r.1 := by decide
  have := hranges r hr
  omega

theorem isCapital_iff {c : Char} : ('A' ≤ c && c ≤ 'Z') = true ↔ 65 ≤ c.toNat ∧ c.toNat ≤ 90 := by
  rw [Bool.and_eq_true, decide_eq_true_eq, decide_eq_true_eq]
  exact and_congr UInt32.le_iff_toNat_le UInt32.le_iff_toNat_le

theorem isLower_iff {c : Char} : c.isLower = true ↔ 97 ≤ c.toNat ∧ c.toNat ≤ 122 := by
  have hrange : c.isLower = ('a' ≤ c && c ≤ 'z') := rfl
  rw [hrange, Bool.and_eq_true, decide_eq_true_eq, decide_eq_true_eq]
  exact and_congr UInt32.le_iff_toNat_le UInt32.le_iff_toNat_le

theorem isBlank_of_lower {c : Char}
    (h : isBlank (if 'A' ≤ c && c ≤ 'Z' then Char.ofNat (c.toNat + 32) else c) = false) : isBlank c = false := by
  split at h
  · next hcapital =>
    have := isCapital_iff.1 hcapital
    exact isBlank_of_printed (by omega) (by omega)
  · exact h

def SettingWord (word : String) : Prop := ∀ c ∈ word.toList, (c.isLower || c.isDigit) = true

namespace SettingWord
variable {word : String} {c : Char}

theorem range (h : SettingWord word) (hc : c ∈ word.toList) :
    97 ≤ c.toNat ∧ c.toNat ≤ 122 ∨ 48 ≤ c.toNat ∧ c.toNat ≤ 57 := by
  have hchar := h c hc
  rwa [Bool.or_eq_true, isLower_iff, Char.isDigit_iff_toNat] at hchar

theorem isBlank_eq_false (h : SettingWord word) (hc : c ∈ word.toList) : isBlank c = false := by
  have := h.range hc
  exact isBlank_of_printed (by omega) (by omega)

theorem lower (h : SettingWord word) : asciiLower word = word := by
  have hsmall : ∀ c ∈ word.toList, ¬('A' ≤ c && c ≤ 'Z') = true := fun c hc hcapital => by
    have := h.range hc
    have := isCapital_iff.1 hcapital
    omega
  unfold asciiLower
  rw [List.map_congr_left fun c hc => if_neg (hsmall c hc), List.map_id', String.ofList_toList]

end SettingWord

theorem settingWord_eq_iff {text word : String} (hword : SettingWord word) :
    settingWord text = word ↔ Spells text word := by
  have hlower := hword.lower
  constructor
  · intro h
    obtain ⟨before, after, htext, hends⟩ := exists_trimChars text.toList
    refine ⟨before, _, after, htext, hends, ?_⟩
    rw [sameAscii, beq_iff_eq, hlower]
    exact h
  · rintro ⟨before, core, after, htext, hends, hsame⟩
    rw [sameAscii, beq_iff_eq, hlower] at hsame
    have hcore : ∀ c ∈ core, isBlank c = false := fun c hc => by
      refine isBlank_of_lower (hword.isBlank_eq_false ?_)
      rw [← hsame]
      unfold asciiLower
      rw [String.toList_ofList, String.toList_ofList]
      exact List.mem_map_of_mem (f := fun c => if 'A' ≤ c && c ≤ 'Z' then Char.ofNat (c.toNat + 32) else c) hc
    unfold settingWord trim
    rw [htext, trimChars_append hends hcore, hsame]

def Says {α : Type} (words : α → List String) (text : String) (a : α) : Prop := ∃ word ∈ words a, Spells text word

def Backend.words : Backend → List String
  | .postgres => ["postgres", "postgresql", "pg"]
  | .mysql => ["mysql", "mariadb"]
  | .sqlite => ["sqlite"]

def CountIdiom.words : CountIdiom → List String
  | .inQuery => ["in"]
  | .existsQuery => ["exists"]

def truthWords : Bool → List String
  | true => ["1", "true", "yes", "on"]
  | false => ["0", "false", "no", "off"]

theorem lookup_settingWord {α : Type} {table : List (String × α)} {words : α → List String}
    (htable : ∀ w ∈ table, SettingWord w.1) (hnodup : (table.map Prod.fst).Nodup)
    (hwords : ∀ word a, (word, a) ∈ table ↔ word ∈ words a) {text : String} {a : α} :
    table.lookup (settingWord text) = some a ↔ Says words text a := by
  rw [List.lookup_eq_some_iff]
  constructor
  · rintro ⟨before, after, rfl, -⟩
    have hmem : (settingWord text, a) ∈ before ++ (settingWord text, a) :: after :=
      List.mem_append_right _ List.mem_cons_self
    exact ⟨_, (hwords _ _).1 hmem, (settingWord_eq_iff (htable _ hmem)).1 rfl⟩
  · rintro ⟨word, hword, hspells⟩
    have hmem := (hwords word a).2 hword
    rw [(settingWord_eq_iff (htable _ hmem)).2 hspells]
    obtain ⟨before, after, rfl⟩ := List.append_of_mem hmem
    refine ⟨before, after, rfl, fun p hp => bne_iff_ne.2 fun heq => ?_⟩
    rw [List.map_append, List.nodup_append] at hnodup
    exact hnodup.2.2 p.1 (List.mem_map_of_mem hp) word (List.mem_map_of_mem List.mem_cons_self) heq.symm

theorem Backend.ofName?_eq_some {text : String} {b : Backend} : ofName? text = some b ↔ Says words text b :=
  lookup_settingWord (by simp [names, SettingWord]) (by decide)
    (fun word b => by cases b <;> simp [names, words])

theorem readSwitch?_eq_some {text : String} {b : Bool} : readSwitch? text = some b ↔ Says truthWords text b :=
  lookup_settingWord (by simp [switchWords, SettingWord]) (by decide)
    (fun word b => by cases b <;> simp [switchWords, truthWords])

theorem CountIdiom.ofName?_eq_some {text : String} {i : CountIdiom} : ofName? text = some i ↔ Says words text i := by
  have htable : ofName? text = [("in", CountIdiom.inQuery), ("exists", .existsQuery)].lookup (settingWord text) := by
    unfold ofName?
    by_cases hin : settingWord text = "in"
    · rw [if_pos hin, hin]
      rfl
    · by_cases hexists : settingWord text = "exists"
      · rw [if_neg hin, if_pos hexists, hexists]
        rfl
      · rw [if_neg hin, if_neg hexists, List.lookup_cons, beq_false_of_ne hin, List.lookup_cons,
          beq_false_of_ne hexists]
        rfl
  rw [htable]
  exact lookup_settingWord (by simp [SettingWord]) (by decide) fun word i => by cases i <;> simp [words]

/-! ## Numbers and addresses -/

def UnsignedText (n : Nat) (cs : List Char) : Prop :=
  ∃ ds, ds ≠ [] ∧ Digits ds ∧ (cs = ds ∨ cs = '+' :: ds) ∧ n = Binary64.digitsValue ds

theorem readDigits_word {ds : List Char} {n : UInt64} :
    (readDigits maxUnsigned 0 ds).map Nat.toUInt64 = .ok n ↔ Digits ds ∧ n.toNat = Binary64.digitsValue ds := by
  have hword : ∀ {m : Nat}, m ≤ maxUnsigned → m.toUInt64.toNat = m := fun {m} hm => by
    unfold maxUnsigned at hm
    rw [Nat.toUInt64_eq, UInt64.toNat_ofNat', Nat.mod_eq_of_lt (by omega)]
  constructor
  · intro h
    obtain ⟨m, hread, rfl⟩ := map_ok h
    obtain ⟨hdigits, rfl, hm⟩ := (readDigits_eq_ok (Nat.zero_le _)).1 hread
    exact ⟨hdigits, hword hm⟩
  · rintro ⟨hdigits, hn⟩
    have hm : Binary64.digitsValue ds ≤ maxUnsigned := by
      have := n.toNat_lt
      unfold maxUnsigned
      omega
    rw [(readDigits_eq_ok (Nat.zero_le _)).2 ⟨hdigits, rfl, hm⟩]
    refine congrArg Except.ok (UInt64.toNat_inj.1 ?_)
    rw [hn]
    exact hword hm

/-- **A word is read just from digits**, behind a plus sign or none, as long as their number is one. -/
theorem readUnsigned_eq_ok {text : String} {n : UInt64} :
    readUnsigned text = .ok n ↔ UnsignedText n.toNat text.toList := by
  have hplus : ∀ {ds : List Char}, ¬Digits ('+' :: ds) := fun h => by simpa using h '+' List.mem_cons_self
  have hsigned : ∀ {ds : List Char}, ds ≠ [] →
      (UnsignedText n.toNat ('+' :: ds) ↔ Digits ds ∧ n.toNat = Binary64.digitsValue ds) := fun {ds} hne => by
    constructor
    · rintro ⟨es, -, hdigits, heq | heq, hn⟩
      · exact absurd (heq ▸ hdigits) hplus
      · exact ⟨(List.cons.inj heq).2 ▸ hdigits, (List.cons.inj heq).2 ▸ hn⟩
    · exact fun h => ⟨ds, hne, h.1, .inr rfl, h.2⟩
  unfold readUnsigned
  generalize text.toList = cs
  split
  · refine iff_of_false (fun h => by cases h) ?_
    rintro ⟨ds, hne, -, heq | heq, -⟩
    · exact hne heq.symm
    · cases heq
  · refine iff_of_false (fun h => by cases h) ?_
    rintro ⟨ds, hne, hdigits, heq | heq, -⟩
    · exact hplus (heq ▸ hdigits)
    · exact hne (List.cons.inj heq).2.symm
  · next ds hne => exact readDigits_word.trans (hsigned hne).symm
  · next hnil _ hunsigned =>
    rw [readDigits_word]
    constructor
    · exact fun h => ⟨cs, hnil, h.1, .inl rfl, h.2⟩
    · rintro ⟨ds, -, hdigits, rfl | rfl, hn⟩
      · exact ⟨hdigits, hn⟩
      · exact absurd rfl (hunsigned ds)

theorem Backend.ofUrl?_of_scheme {url : String} {scheme rest : List Char} (hurl : url.toList = scheme ++ ':' :: rest)
    (hscheme : ':' ∉ scheme) : ofUrl? url = ofName? (String.ofList scheme) := by
  obtain ⟨piece, pieces, hrest⟩ := List.exists_cons_of_ne_nil (splitChars_ne_nil ':' rest)
  unfold ofUrl? splitText
  rw [hurl, splitChars_append hscheme, hrest]
  rfl

def Backend.Addressed (url : String) (b : Backend) : Prop :=
  ∃ scheme rest, url.toList = scheme ++ ':' :: rest ∧ ':' ∉ scheme ∧ Says words (String.ofList scheme) b

theorem Backend.ofUrl?_eq_some {url : String} {b : Backend} : ofUrl? url = some b ↔ Addressed url b := by
  constructor
  · intro h
    by_cases hcolon : ':' ∈ url.toList
    · obtain ⟨scheme, rest, hurl, hscheme⟩ := List.eq_append_cons_of_mem hcolon
      rw [ofUrl?_of_scheme hurl hscheme] at h
      exact ⟨scheme, rest, hurl, hscheme, ofName?_eq_some.1 h⟩
    · unfold ofUrl? splitText at h
      rw [splitChars_of_notMem hcolon] at h
      cases h
  · rintro ⟨scheme, rest, hurl, hscheme, hsays⟩
    rw [ofUrl?_of_scheme hurl hscheme]
    exact ofName?_eq_some.2 hsays

/-- The backend of a database address: the one it names, and Postgres where it names none that is known. -/
inductive Backend.OfAddress : Option String → Backend → Prop
  | named {url : String} {b : Backend} (h : Addressed url b) : OfAddress (some url) b
  | unknown {url : String} (h : ∀ b, ¬Addressed url b) : OfAddress (some url) .postgres
  | absent : OfAddress none .postgres

theorem Backend.ofAddress (url : Option String) : OfAddress url ((url.bind ofUrl?).getD .postgres) := by
  cases url with
  | none => exact .absent
  | some url =>
    cases hurl : ofUrl? url with
    | some b =>
      rw [Option.bind_some, hurl]
      exact .named (ofUrl?_eq_some.1 hurl)
    | none =>
      rw [Option.bind_some, hurl]
      refine .unknown fun b hb => ?_
      rw [ofUrl?_eq_some.2 hb] at hurl
      cases hurl

theorem trim_eq_empty_iff {text : String} : trim text = "" ↔ ∀ c ∈ text.toList, isBlank c = true := by
  rw [← String.toList_eq_nil_iff, trim, String.toList_ofList]
  constructor
  · intro hnil
    obtain ⟨before, after, htext, hends⟩ := exists_trimChars text.toList
    rw [hnil, List.append_nil] at htext
    rwa [htext]
  · intro hall
    rw [trimChars, List.dropWhile_eq_nil_iff.2 hall]
    rfl

theorem Settings.urlOf_eq_some {value : Option String} {url : String} :
    urlOf value = some url ↔ value = some url ∧ ∃ c ∈ url.toList, isBlank c = false := by
  unfold urlOf
  rw [Option.filter_eq_some_iff, Bool.not_eq_true', Bool.eq_false_iff, ne_eq, String.isEmpty_iff, trim_eq_empty_iff]
  simp

/-! ## One variable -/

/-- The variables that have a grammar. -/
inductive Setting where
  | backend
  | copyRestriction
  | countIdiom
  | statementTimeout
  | maxLimit
  deriving DecidableEq

namespace Setting

def all : List Setting := [.backend, .copyRestriction, .countIdiom, .statementTimeout, .maxLimit]

def name : Setting → String
  | .backend => "PAGEWRIGHT_BACKEND"
  | .copyRestriction => "PAGEWRIGHT_COPY_RESTRICTION"
  | .countIdiom => "PAGEWRIGHT_COUNT_IDIOM"
  | .statementTimeout => "PAGEWRIGHT_STATEMENT_TIMEOUT_SECS"
  | .maxLimit => "PAGEWRIGHT_MAX_LIMIT"

def Admits : Setting → String → Prop
  | .backend, text => ∃ b, Says Backend.words text b
  | .copyRestriction, text => ∃ b, Says truthWords text b
  | .countIdiom, text => ∃ i, Says CountIdiom.words text i
  | .statementTimeout, text => ∃ n : UInt64, UnsignedText n.toNat text.toList
  | .maxLimit, text => ∃ n : UInt64, 1 ≤ n.toNat ∧ UnsignedText n.toNat text.toList

def Fits (lookup : String → Option String) (v : Setting) : Prop := ∀ text, lookup v.name = some text → v.Admits text

end Setting

def SettingFault.setting : SettingFault → Setting
  | .backend _ => .backend
  | .copyRestriction _ => .copyRestriction
  | .countIdiom _ => .countIdiom
  | .statementTimeout _ => .statementTimeout
  | .maxLimit _ | .zeroMaxLimit => .maxLimit

theorem starts_append {s t : String} (h : ∃ rest, t = s ++ rest) (u : String) : ∃ rest, t ++ u = s ++ rest := by
  obtain ⟨rest, rfl⟩ := h
  exact ⟨rest ++ u, String.append_assoc⟩

theorem SettingFault.message_names : ∀ f : SettingFault, ∃ rest, f.message = f.setting.name ++ rest
  | .backend word =>
    starts_append (s := Setting.backend.name) ⟨" must be postgres, mysql or sqlite: ", by decide⟩ (unknownBackend word)
  | .copyRestriction word =>
    starts_append (s := Setting.copyRestriction.name)
      (starts_append ⟨" must be true or false: '", by decide⟩ word) "' is not a boolean"
  | .countIdiom word =>
    starts_append (s := Setting.countIdiom.name) ⟨" must be in or exists: ", by decide⟩ (unknownCountIdiom word)
  | .statementTimeout fault =>
    starts_append (s := Setting.statementTimeout.name) ⟨" must be a valid u64: ", by decide⟩ fault.message
  | .maxLimit fault =>
    starts_append (s := Setting.maxLimit.name) ⟨" must be a valid u64: ", by decide⟩ fault.message
  | .zeroMaxLimit => ⟨" must be at least 1", by decide⟩

/-- The variables are read one after the other: if none of them fails they all fit, with an outcome as `R` says, and
otherwise the fault is that of the first that does not fit. -/
structure ReadsInOrder {α : Type} (lookup : String → Option String) (vs : List Setting) (R : α → Prop)
    (x : Except SettingFault α) : Prop where
  ok : ∀ a, x = .ok a → (∀ v ∈ vs, v.Fits lookup) ∧ R a
  error : ∀ f, x = .error f →
    ∃ before after, vs = before ++ f.setting :: after ∧ (∀ v ∈ before, v.Fits lookup) ∧ ¬f.setting.Fits lookup

section
variable {α β : Type} {lookup : String → Option String} {vs ws : List Setting} {R : α → Prop} {S : β → Prop}
  {x : Except SettingFault α}

theorem ReadsInOrder.pure {a : α} (h : R a) : ReadsInOrder lookup [] R (.ok a) where
  ok b hb := ⟨fun _ hv => absurd hv List.not_mem_nil, Except.ok.inj hb ▸ h⟩
  error f hf := by cases hf

theorem ReadsInOrder.bind (hx : ReadsInOrder lookup vs R x) {k : α → Except SettingFault β}
    (hk : ∀ a, R a → ReadsInOrder lookup ws S (k a)) : ReadsInOrder lookup (vs ++ ws) S (x >>= k) := by
  cases hread : x with
  | error e =>
    refine ⟨fun b hb => (by cases hb), fun f hf => ?_⟩
    cases hf
    obtain ⟨before, after, rfl, hbefore, hf⟩ := hx.error e hread
    exact ⟨before, after ++ ws, by simp, hbefore, hf⟩
  | ok a =>
    obtain ⟨hvs, ha⟩ := hx.ok a hread
    refine ⟨fun b hb => ?_, fun f hf => ?_⟩
    · obtain ⟨hws, hb⟩ := (hk a ha).ok b hb
      exact ⟨List.forall_mem_append.2 ⟨hvs, hws⟩, hb⟩
    · obtain ⟨before, after, rfl, hbefore, hf⟩ := (hk a ha).error f hf
      exact ⟨vs ++ before, after, by simp, List.forall_mem_append.2 ⟨hvs, hbefore⟩, hf⟩

theorem ReadsInOrder.map (hx : ReadsInOrder lookup vs R x) {g : α → β} (hg : ∀ a, R a → S (g a)) :
    ReadsInOrder lookup vs S (x.map g) where
  ok b hb := by
    obtain ⟨a, ha, rfl⟩ := map_ok hb
    exact ⟨(hx.ok a ha).1, hg a (hx.ok a ha).2⟩
  error f hf := by
    cases hread : x with
    | ok a =>
      rw [hread] at hf
      cases hf
    | error e =>
      rw [hread] at hf
      cases hf
      exact hx.error f hread

/-- Reading one variable that may be absent. -/
theorem ReadsInOrder.optional {v : Setting} {read : String → Except SettingFault α} {R : String → α → Prop}
    (hread : ∀ text a, read text = .ok a ↔ R text a) (hadmits : ∀ text, v.Admits text ↔ ∃ a, R text a)
    (hfault : ∀ text f, read text = .error f → f.setting = v) :
    ReadsInOrder lookup [v] (Option.Rel R (lookup v.name)) (readOptional read (lookup v.name)) := by
  cases hvalue : lookup v.name with
  | none =>
    have hfits : v.Fits lookup := fun text htext => by
      rw [hvalue] at htext
      cases htext
    refine ⟨fun o ho => ?_, fun f hf => by cases hf⟩
    cases ho
    exact ⟨List.forall_mem_singleton.2 hfits, .none⟩
  | some text =>
    have hfits : v.Fits lookup ↔ ∃ a, read text = .ok a := by
      simp only [Setting.Fits, hvalue, Option.some.injEq, forall_eq', hadmits, hread]
    refine ⟨fun o ho => ?_, fun f hf => ?_⟩
    · obtain ⟨a, ha, rfl⟩ := map_ok ho
      exact ⟨List.forall_mem_singleton.2 (hfits.2 ⟨a, ha⟩), .some ((hread text a).1 ha)⟩
    · cases hread' : read text with
      | ok a =>
        rw [readOptional, hread'] at hf
        cases hf
      | error e =>
        rw [readOptional, hread'] at hf
        cases hf
        have hv := hfault text f hread'
        refine ⟨[], [], by rw [hv]; rfl, fun _ hw => absurd hw List.not_mem_nil, ?_⟩
        rw [hv, hfits]
        rintro ⟨a, ha⟩
        rw [hread'] at ha
        cases ha

end

/-! ## All variables -/

def SaysOr {α : Type} (R : String → α → Prop) (default : α) (value : Option String) (a : α) : Prop :=
  ∃ o, Option.Rel R value o ∧ a = o.getD default

/-- The settings say what their variables do. -/
structure Settings.ReadFrom (s : Settings) (lookup : String → Option String) : Prop where
  /-- An address of blanks counts as absent, -/
  databaseUrl : ∀ url, s.databaseUrl = some url ↔
    lookup "DATABASE_URL" = some url ∧ ∃ c ∈ url.toList, isBlank c = false
  /-- and where there is one, it counts after the backend that is named. -/
  backend : ∃ b, Backend.OfAddress s.databaseUrl b ∧
    SaysOr (Says Backend.words) b (lookup Setting.backend.name) s.backend
  copyRestriction : Option.Rel (Says truthWords) (lookup Setting.copyRestriction.name) s.copyRestriction
  countIdiom : Option.Rel (Says CountIdiom.words) (lookup Setting.countIdiom.name) s.countIdiom
  statementTimeout : SaysOr (fun text n => UnsignedText n.toNat text.toList) 10
    (lookup Setting.statementTimeout.name) s.statementTimeout
  maxLimit : Option.Rel (fun text n => 1 ≤ n.toNat ∧ UnsignedText n.toNat text.toList)
    (lookup Setting.maxLimit.name) s.maxLimit

section
variable {α : Type} {lookup : String → Option String}

theorem orFault_eq_ok {fault : String → SettingFault} {text : String} {o : Option α} {a : α} :
    orFault fault text o = .ok a ↔ o = some a := by
  cases o <;> simp [orFault]

theorem setting_of_orFault {fault : String → SettingFault} {v : Setting} {text : String} {o : Option α}
    {f : SettingFault} (h : orFault fault text o = .error f) (hfault : ∀ word, (fault word).setting = v) :
    f.setting = v := by
  cases o with
  | some a => cases h
  | none =>
    cases h
    exact hfault _

theorem asSetting_eq_ok {fault : WholeFault → SettingFault} {x : Except WholeFault α} {a : α} :
    asSetting fault x = .ok a ↔ x = .ok a := by
  cases x <;> simp [asSetting]

theorem setting_of_asSetting {fault : WholeFault → SettingFault} {v : Setting} {x : Except WholeFault α}
    {f : SettingFault} (h : asSetting fault x = .error f) (hfault : ∀ reason, (fault reason).setting = v) :
    f.setting = v := by
  cases x with
  | ok a => cases h
  | error reason =>
    cases h
    exact hfault _

theorem ReadsInOrder.saysOr {v : Setting} {read : String → Except SettingFault α} {R : String → α → Prop}
    (hread : ∀ text a, read text = .ok a ↔ R text a) (hadmits : ∀ text, v.Admits text ↔ ∃ a, R text a)
    (hfault : ∀ text f, read text = .error f → f.setting = v) (default : α) :
    ReadsInOrder lookup [v] (SaysOr R default (lookup v.name))
      ((readOptional read (lookup v.name)).map fun o => o.getD default) :=
  (ReadsInOrder.optional hread hadmits hfault).map fun o ho => ⟨o, ho, rfl⟩

end

namespace Settings

theorem backendOf_eq (value url : Option String) : backendOf value url =
    (readOptional (fun text => orFault .backend text (Backend.ofName? text)) value).map
      fun o => o.getD ((url.bind Backend.ofUrl?).getD .postgres) := by
  cases value with
  | none => rfl
  | some text => cases h : Backend.ofName? text <;> simp [backendOf, readOptional, orFault, h, Except.map]

theorem timeout_eq (value : Option String) : asSetting .statementTimeout (readUnsigned (value.getD "10")) =
    (readOptional (fun text => asSetting .statementTimeout (readUnsigned text)) value).map fun o => o.getD 10 := by
  cases value with
  | none => decide
  | some text => cases h : readUnsigned text <;> simp [readOptional, asSetting, h, Except.map]

def readMaxLimit (text : String) : Except SettingFault UInt64 :=
  match readUnsigned text with
  | .error reason => .error (.maxLimit reason)
  | .ok n => if n = 0 then .error .zeroMaxLimit else .ok n

theorem maxLimit_eq (value : Option String) :
    (readOptional (fun text => asSetting .maxLimit (readUnsigned text)) value >>= positive) =
      readOptional readMaxLimit value := by
  cases value with
  | none => rfl
  | some text =>
    cases h : readUnsigned text with
    | error reason => simp [readOptional, asSetting, readMaxLimit, h, bind, Except.bind, Except.map]
    | ok n =>
      by_cases hn : n = 0 <;>
        simp [readOptional, asSetting, readMaxLimit, positive, h, hn, bind, Except.bind, Except.map]

theorem readMaxLimit_eq_ok {text : String} {n : UInt64} :
    readMaxLimit text = .ok n ↔ 1 ≤ n.toNat ∧ UnsignedText n.toNat text.toList := by
  have hpositive : 1 ≤ n.toNat ↔ n ≠ 0 := by
    rw [Nat.one_le_iff_ne_zero, ne_eq, ne_eq, ← UInt64.toNat_inj, UInt64.toNat_zero]
  rw [← readUnsigned_eq_ok, hpositive, readMaxLimit]
  cases readUnsigned text with
  | error reason => simp
  | ok m =>
    by_cases hm : m = 0
    · simp only [hm, if_true, Except.ok.injEq]
      exact iff_of_false (by simp) fun h => h.1 h.2.symm
    · simp only [hm, if_false, Except.ok.injEq]
      exact ⟨fun h => ⟨h ▸ hm, h⟩, fun h => h.2⟩

theorem setting_of_readMaxLimit {text : String} {f : SettingFault} (h : readMaxLimit text = .error f) :
    f.setting = .maxLimit := by
  unfold readMaxLimit at h
  split at h
  · cases h
    rfl
  · split at h
    · cases h
      rfl
    · cases h

section
variable (lookup : String → Option String)

theorem reads_backend (default : Backend) : ReadsInOrder lookup [.backend]
    (SaysOr (Says Backend.words) default (lookup Setting.backend.name))
    ((readOptional (fun text => orFault .backend text (Backend.ofName? text)) (lookup Setting.backend.name)).map
      fun o => o.getD default) := by
  refine .saysOr (fun _ _ => ?_) (fun _ => Iff.rfl) (fun _ _ h => ?_) default
  · exact orFault_eq_ok.trans Backend.ofName?_eq_some
  · exact setting_of_orFault h fun _ => rfl

theorem reads_copyRestriction : ReadsInOrder lookup [.copyRestriction]
    (Option.Rel (Says truthWords) (lookup Setting.copyRestriction.name))
    (readOptional (fun text => orFault .copyRestriction text (readSwitch? text))
      (lookup Setting.copyRestriction.name)) := by
  refine .optional (fun _ _ => ?_) (fun _ => Iff.rfl) fun _ _ h => ?_
  · exact orFault_eq_ok.trans readSwitch?_eq_some
  · exact setting_of_orFault h fun _ => rfl

theorem reads_countIdiom : ReadsInOrder lookup [.countIdiom]
    (Option.Rel (Says CountIdiom.words) (lookup Setting.countIdiom.name))
    (readOptional (fun text => orFault .countIdiom text (CountIdiom.ofName? text))
      (lookup Setting.countIdiom.name)) := by
  refine .optional (fun _ _ => ?_) (fun _ => Iff.rfl) fun _ _ h => ?_
  · exact orFault_eq_ok.trans CountIdiom.ofName?_eq_some
  · exact setting_of_orFault h fun _ => rfl

theorem reads_statementTimeout (default : UInt64) : ReadsInOrder lookup [.statementTimeout]
    (SaysOr (fun text n => UnsignedText n.toNat text.toList) default (lookup Setting.statementTimeout.name))
    ((readOptional (fun text => asSetting .statementTimeout (readUnsigned text))
      (lookup Setting.statementTimeout.name)).map fun o => o.getD default) := by
  refine .saysOr (fun _ _ => ?_) (fun _ => Iff.rfl) (fun _ _ h => ?_) default
  · exact asSetting_eq_ok.trans readUnsigned_eq_ok
  · exact setting_of_asSetting h fun _ => rfl

theorem reads_maxLimit : ReadsInOrder lookup [.maxLimit]
    (Option.Rel (fun text n => 1 ≤ n.toNat ∧ UnsignedText n.toNat text.toList) (lookup Setting.maxLimit.name))
    (readOptional readMaxLimit (lookup Setting.maxLimit.name)) :=
  .optional (fun _ _ => readMaxLimit_eq_ok) (fun _ => Iff.rfl) fun _ _ => setting_of_readMaxLimit

/-- **The variables are read in order.** -/
theorem reads_ofLookup : ReadsInOrder lookup Setting.all (fun s => s.ReadFrom lookup) (ofLookup lookup) := by
  have hofLookup : ofLookup lookup = (do
      let url := urlOf (lookup "DATABASE_URL")
      let backend ← (readOptional (fun text => orFault .backend text (Backend.ofName? text))
        (lookup Setting.backend.name)).map fun o => o.getD ((url.bind Backend.ofUrl?).getD .postgres)
      let copy ← readOptional (fun text => orFault .copyRestriction text (readSwitch? text))
        (lookup Setting.copyRestriction.name)
      let idiom ← readOptional (fun text => orFault .countIdiom text (CountIdiom.ofName? text))
        (lookup Setting.countIdiom.name)
      let timeout ← (readOptional (fun text => asSetting .statementTimeout (readUnsigned text))
        (lookup Setting.statementTimeout.name)).map fun o => o.getD 10
      let max ← readOptional readMaxLimit (lookup Setting.maxLimit.name)
      .ok ⟨url, backend, copy, idiom, timeout, max⟩) := by
    simp only [← backendOf_eq, ← timeout_eq, ← maxLimit_eq, bind_assoc]
    rfl
  rw [hofLookup]
  exact (reads_backend lookup _).bind fun backend hbackend => (reads_copyRestriction lookup).bind fun copy hcopy =>
    (reads_countIdiom lookup).bind fun idiom hidiom => (reads_statementTimeout lookup 10).bind fun timeout htimeout =>
      (reads_maxLimit lookup).bind fun max hmax => .pure
        { databaseUrl := fun url => urlOf_eq_some
          backend := ⟨_, Backend.ofAddress _, hbackend⟩
          copyRestriction := hcopy
          countIdiom := hidiom
          statementTimeout := htimeout
          maxLimit := hmax }

end

end Settings

/-- **Settings are read just from what their grammar admits.**  They are read if and only if every variable that is
there is in its grammar, and say what the variables do; what they make of a backend's capabilities has the ones that are
set and the backend's own otherwise, whichever backend the settings name.  A fault is that of the first variable, in
order, that is not in its grammar, and its message starts with that variable. -/
theorem settings_read_from_grammar (lookup : String → Option String) :
    ((∃ s, Settings.ofLookup lookup = .ok s) ↔ ∀ v : Setting, v.Fits lookup) ∧
      (∀ s, Settings.ofLookup lookup = .ok s → s.ReadFrom lookup ∧ ∀ b : Backend,
        SaysOr (Says truthWords) b.capabilities.copiesRestriction (lookup Setting.copyRestriction.name)
            (s.capabilitiesFor b).copiesRestriction ∧
          SaysOr (Says CountIdiom.words) b.capabilities.countIdiom (lookup Setting.countIdiom.name)
            (s.capabilitiesFor b).countIdiom ∧
          ∀ other, ({ s with backend := other } : Settings).capabilitiesFor b = s.capabilitiesFor b) ∧
      ∀ f, Settings.ofLookup lookup = .error f →
        (∃ before after, Setting.all = before ++ f.setting :: after ∧ (∀ v ∈ before, v.Fits lookup) ∧
          ¬f.setting.Fits lookup) ∧
        ∃ rest, f.message = f.setting.name ++ rest := by
  have hreads := Settings.reads_ofLookup lookup
  refine ⟨⟨?_, fun hfits => ?_⟩, fun s hs => ?_, fun f hf => ⟨hreads.error f hf, f.message_names⟩⟩
  · rintro ⟨s, hs⟩ v
    exact (hreads.ok s hs).1 v (by cases v <;> decide)
  · cases hread : Settings.ofLookup lookup with
    | ok s => exact ⟨s, rfl⟩
    | error f =>
      obtain ⟨-, -, -, -, hf⟩ := hreads.error f hread
      exact absurd (hfits f.setting) hf
  · have hfrom := (hreads.ok s hs).2
    exact ⟨hfrom, fun b => ⟨⟨_, hfrom.copyRestriction, rfl⟩, ⟨_, hfrom.countIdiom, rfl⟩, fun _ => rfl⟩⟩

-- blanks stand around a word, not around a number, and the first of two faults is the one reported
example : (Settings.ofLookup fun v => if v = "PAGEWRIGHT_BACKEND" then some " MySQL" else none) =
    .ok ⟨none, .mysql, none, none, 10, none⟩ := by decide +kernel

-- a switch is turned off by a word in capitals, too
example : (Settings.ofLookup fun v => if v = "PAGEWRIGHT_COPY_RESTRICTION" then some "OFF " else none) =
    .ok ⟨none, .postgres, some false, none, 10, none⟩ := by decide +kernel

example : (Settings.ofLookup fun v =>
    if v = "PAGEWRIGHT_MAX_LIMIT" then some "0"
    else if v = "PAGEWRIGHT_STATEMENT_TIMEOUT_SECS" then some " 5" else none) =
      .error (.statementTimeout .badDigit) := by decide +kernel

end PageQuery
