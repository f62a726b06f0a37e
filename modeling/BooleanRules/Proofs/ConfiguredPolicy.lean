import BooleanRules.Config.Loading
import BooleanRules.Proofs.Skipping

/-!
# The policy that a text configures

The configuration of an object can be told from the values under `missing_root` alone.  Without one
the policy is the default, with one it is the policy that the value is written for, if there is such
a policy, and with more there is no configuration.  All other entries are skipped, whatever they
hold, and it does not matter how many there are and where they stand.

A rule that is missing is false under the one policy and an error under the other, so a strict
policy that got lost on the way from the text would not be noticed before a rule is missing.

## Main definitions

* `MissingRoot.WrittenAs` — the two ways to write a policy.
* `valuesUnder` — the values under a key.
* `fieldPolicy` — what the values under `missing_root` come to, with the first fault.
* `SetsPolicy` — the values are a single one that is written for a policy.

## Main results

* `Node.asPolicy_eq_ok_iff` — a value is read as the policy that it is written for.
* `Node.readPolicy_eq`, `Node.EntriesSpelled.readFields_eq` — the policy and the entries of a text
  that spells them.
* `Config.read_eq` — the configuration of an object depends on the values under `missing_root`.
* `policy_told_by_one_field` — **the configured policy is what the text says.**
-/

namespace BooleanRules

open Json

/-! ### Ways to write a policy -/

/-- The value is the name of the policy, or a map from the name to a null and nothing else. -/
def MissingRoot.WrittenAs (m : MissingRoot) (n : Node) : Prop :=
  n = .string m.name ∨ n = .map [(m.name, .null)]

theorem MissingRoot.ofName?_eq_some_iff {name : String} {m : MissingRoot} :
    MissingRoot.ofName? name = some m ↔ name = m.name := by
  constructor
  · intro h
    rw [MissingRoot.ofName?] at h
    split at h
    · rename_i hname
      cases h
      exact hname
    · split at h
      · rename_i hname
        cases h
        exact hname
      · cases h
  · rintro rfl
    exact MissingRoot.ofName?_name m

theorem policyNamed_eq_ok_iff {name : String} {m : MissingRoot} :
    policyNamed name = .ok m ↔ name = m.name := by
  rw [← MissingRoot.ofName?_eq_some_iff, policyNamed]
  cases MissingRoot.ofName? name <;> simp [Option.elim]

namespace Node

/-- The value has to be a null. -/
def asUnit : Node → Except ConfigFault Unit
  | .null => .ok ()
  | .bool b => .error (.wrongType (.scalar (.bool b)) .unit)
  | .number x => .error (.wrongType (.scalar (.number x)) .unit)
  | .string s => .error (.wrongType (.scalar (.string s)) .unit)
  | .list _ => .error (.wrongType .list .unit)
  | .map _ => .error (.wrongType .map .unit)
  -- no text spells a predicate
  | .predicate _ => .error (.text .malformed)

/-- The policy of a value.  In a map the name comes first, then what stands under it, and then it
matters whether there is more. -/
def asPolicy : Node → Except ConfigFault MissingRoot
  | .string name => policyNamed name
  | .map ((name, value) :: more) => do
    let policy ← policyNamed name
    value.asUnit
    if more.isEmpty then return policy else .error (.text .malformed)
  | _ => .error (.text .malformed)

theorem asUnit_eq_ok_iff {n : Node} : n.asUnit = .ok () ↔ n = .null := by
  cases n <;> simp [asUnit]

/-- **A value is read as the policy that it is written for**, and other values have none. -/
theorem asPolicy_eq_ok_iff {n : Node} {m : MissingRoot} : n.asPolicy = .ok m ↔ m.WrittenAs n := by
  constructor
  · intro h
    rw [asPolicy.eq_def] at h
    split at h
    · rw [policyNamed_eq_ok_iff] at h
      exact .inl (congrArg Node.string h)
    · obtain ⟨policy, hname, h⟩ := exists_of_bind_eq_ok h
      obtain ⟨⟨⟩, hunit, h⟩ := exists_of_bind_eq_ok h
      split at h
      · rename_i hmore
        cases h
        rw [policyNamed_eq_ok_iff] at hname
        rw [asUnit_eq_ok_iff] at hunit
        rw [List.isEmpty_iff] at hmore
        rw [hname, hunit, hmore]
        exact .inr rfl
      · cases h
    · cases h
  · have hname : policyNamed m.name = .ok m := policyNamed_eq_ok_iff.mpr rfl
    rintro (rfl | rfl)
    · exact hname
    · rw [asPolicy, hname]
      rfl

/-! ### Reading a policy -/

/-- The first character tells a null and a text from the other scalars. -/
theorem first_of_readScalar {cs rest : List Char} {s : Scalar}
    (h : readScalar cs = .ok (s, rest)) :
    ∃ c more, cs = c :: more ∧ (s = .null → c = 'n') ∧ ∀ t, s = .string t → c = '"' := by
  unfold readScalar at h
  split at h
  · cases h
  · obtain ⟨after, -, h⟩ := exists_of_bind_eq_ok h
    cases h
    exact ⟨_, _, rfl, fun _ => rfl, nofun⟩
  · obtain ⟨after, -, h⟩ := exists_of_bind_eq_ok h
    cases h
    exact ⟨_, _, rfl, nofun, nofun⟩
  · obtain ⟨after, -, h⟩ := exists_of_bind_eq_ok h
    cases h
    exact ⟨_, _, rfl, nofun, nofun⟩
  · obtain ⟨⟨text, after⟩, -, h⟩ := exists_of_bind_eq_ok h
    cases h
    exact ⟨_, _, rfl, nofun, fun _ _ => rfl⟩
  · split at h
    · obtain ⟨⟨x, after⟩, -, h⟩ := exists_of_bind_eq_ok h
      cases h
      exact ⟨_, _, rfl, nofun, nofun⟩
    · cases h

theorem intruderFault_of_scalar {cs rest : List Char} {s : Scalar} (wanted : Wanted)
    (h : readScalar cs = .ok (s, rest)) :
    intruderFault wanted cs = .wrongType (.scalar s) wanted := by
  unfold intruderFault
  split
  · cases h
  · cases h
  · rw [h]

theorem readUnit_eq {cs rest : List Char} {n : Node} (h : Spelled cs n rest) :
    readUnit cs = n.asUnit.map fun _ => rest := by
  cases h with
  | list opened => simp only [readUnit, opened]; rfl
  | map opened => simp only [readUnit, opened]; rfl
  | @scalar _ _ s read =>
    obtain ⟨c, more, hcs, hnull, -⟩ := first_of_readScalar read
    rw [readUnit]
    split
    · rename_i more' hn
      rw [hn] at read
      obtain ⟨after, hword, h⟩ := exists_of_bind_eq_ok read
      cases h
      rw [hword]
      rfl
    · rename_i hn
      rw [intruderFault_of_scalar _ read]
      cases s with
      | null => exact absurd (hnull rfl ▸ hcs) (hn more)
      | _ => rfl

/-- In a map the first entry is read before anything is said about the rest. -/
theorem readPolicy_of_entry {cs inner value after : List Char} {k : String} {n : Node}
    (opened : dropBlanks cs = '\x7b' :: inner) (key : KeySpelled inner k value)
    (item : Spelled value n after) :
    readPolicy cs = (do
      let policy ← policyNamed k
      n.asUnit
      match dropBlanks after with
      | '\x7d' :: rest => return (policy, rest)
      | rest => .error (.text (.missingBefore rest))) := by
  obtain ⟨colon, hread, hcolon⟩ := key.read
  simp only [readPolicy, opened, readPolicyKey, hread, liftFault, bind, Except.bind]
  cases policyNamed k with
  | error f => rfl
  | ok policy =>
    simp only [hcolon, readUnit_eq item, pure, Except.pure]
    cases n.asUnit <;> rfl

/-- The policy in front of a text is the one of the value that the text spells there. -/
theorem readPolicy_eq {cs rest : List Char} {n : Node} (h : Spelled cs n rest) :
    readPolicy cs = n.asPolicy.map fun m => (m, rest) := by
  cases h with
  | list opened => simp only [readPolicy, opened]; rfl
  | @scalar _ _ s read =>
    obtain ⟨c, more, hcs, -, hstring⟩ := first_of_readScalar read
    rw [readPolicy]
    split
    · rename_i quoted hquote
      rw [hquote] at read
      obtain ⟨⟨name, after⟩, hread, h⟩ := exists_of_bind_eq_ok read
      cases h
      rw [hread]
      show (policyNamed name >>= fun m => pure (m, rest)) = (policyNamed name).map _
      cases policyNamed name <;> rfl
    · rename_i hopened
      rw [hopened] at read
      cases read
    · rename_i hquote _
      rw [hcs, Fault.missingBefore_cons]
      cases s with
      | string t => exact absurd (hstring t rfl ▸ hcs) (hquote more)
      | _ => rfl
  | map opened entries =>
    cases entries with
    | none closed => simp only [readPolicy, opened, readPolicyKey, readKey, closed]; rfl
    | @last _ _ _ _ k v key item closed =>
      rw [readPolicy_of_entry opened key item, closed, asPolicy]
      cases policyNamed k with
      | error f => rfl
      | ok policy => cases v.asUnit <;> rfl
    | @cons _ _ _ _ _ k v more key item comma entries nonempty =>
      rw [readPolicy_of_entry opened key item, comma, asPolicy,
        List.isEmpty_eq_false_iff.mpr nonempty]
      cases policyNamed k with
      | error f => rfl
      | ok policy => cases v.asUnit <;> rfl

end Node

/-! ### Reading the entries -/

/-- The values under a key, in order. -/
def valuesUnder (key : String) (entries : List (String × Node)) : List Node :=
  (entries.filter fun e => e.1 = key).map Prod.snd

theorem valuesUnder_cons (key : String) (e : String × Node) (entries : List (String × Node)) :
    valuesUnder key (e :: entries) = valuesUnder key [e] ++ valuesUnder key entries := by
  rw [valuesUnder, ← List.singleton_append, List.filter_append, List.map_append]
  rfl

/-- What the values under `missing_root` make of the policy found so far: a second one is a fault
before it is looked at. -/
def fieldPolicy (found : Option MissingRoot) (values : List Node) :
    Except ConfigFault (Option MissingRoot) :=
  values.foldlM (fun found n =>
    if found.isSome then .error (.duplicateField "missing_root") else n.asPolicy.map some) found

theorem fieldPolicy_append (found : Option MissingRoot) (values more : List Node) :
    fieldPolicy found (values ++ more) = fieldPolicy found values >>= (fieldPolicy · more) :=
  List.foldlM_append

theorem fieldPolicy_one (n : Node) : fieldPolicy none [n] = n.asPolicy.map some := by
  rw [fieldPolicy, List.foldlM_cons]
  show (n.asPolicy.map some >>= pure) = _
  exact bind_pure _

/-- Two values set no policy, even if they are the same. -/
theorem fieldPolicy_two (n n' : Node) (more : List Node) :
    ∃ f, fieldPolicy none (n :: n' :: more) = .error f := by
  cases hpolicy : n.asPolicy with
  | error f => exact ⟨f, by simp only [fieldPolicy, List.foldlM_cons, hpolicy]; rfl⟩
  | ok m =>
    exact ⟨.duplicateField "missing_root", by
      simp only [fieldPolicy, List.foldlM_cons, hpolicy]; rfl⟩

namespace Node

/-- How the object goes on after an entry. -/
def continueFields (steps : Nat) (found : Option MissingRoot) (after : List Char) :
    Except ConfigFault (Option MissingRoot × List Char) :=
  match dropBlanks after with
  | ',' :: rest => readFields steps found rest
  | '\x7d' :: rest => .ok (found, rest)
  | rest => .error (.text (.missingBefore rest))

/-- The first entry is read before the others; if it is not the one of the policy it is skipped. -/
theorem readFields_of_entry {steps : Nat} {cs value after : List Char} {k : String} {n : Node}
    (found : Option MissingRoot) (key : KeySpelled cs k value) (item : Spelled value n after)
    (hsteps : 2 * value.length ≤ steps) :
    readFields (steps + 1) found cs =
      fieldPolicy found (valuesUnder "missing_root" [(k, n)]) >>=
        (continueFields steps · after) := by
  obtain ⟨colon, hread, hcolon⟩ := key.read
  by_cases hk : k = "missing_root"
  · have hvalues : valuesUnder "missing_root" [(k, n)] = [n] := by simp [valuesUnder, hk]
    rw [hvalues]
    cases found with
    | some m => simp only [readFields, hread, hk, liftFault, bind, Except.bind]; rfl
    | none =>
      simp only [readFields, hread, hk, hcolon, liftFault, readPolicy_eq item, bind, Except.bind]
      rw [fieldPolicy_one]
      cases n.asPolicy <;> rfl
  · have hvalues : valuesUnder "missing_root" [(k, n)] = [] := by simp [valuesUnder, hk]
    have hskip := item.skip steps hsteps
    rw [hvalues]
    simp only [readFields, hread, hk, hcolon, liftFault, hskip, bind, Except.bind]
    rfl

theorem EntriesSpelled.readFields_eq {cs rest : List Char} {entries : List (String × Node)}
    (h : EntriesSpelled cs entries rest) (hnonempty : entries ≠ []) {steps : Nat}
    (found : Option MissingRoot) (hsteps : 2 * cs.length < steps) :
    readFields steps found cs =
      (fieldPolicy found (valuesUnder "missing_root" entries)).map fun found => (found, rest) := by
  induction entries generalizing cs steps found with
  | nil => exact absurd rfl hnonempty
  | cons e entries ih =>
    obtain _ | steps := steps
    · exact absurd hsteps (Nat.not_lt_zero _)
    cases h with
    | @last _ _ _ _ k n key item closed =>
      have hvalue := key.suffix.length_le
      rw [readFields_of_entry found key item (by omega)]
      cases fieldPolicy found (valuesUnder "missing_root" [(k, n)]) with
      | error f => rfl
      | ok found => simp only [bind, Except.bind, continueFields, closed]; rfl
    | @cons _ _ _ _ _ k n _ key item comma spelled nonempty =>
      have hvalue := key.suffix.length_le
      have hafter := item.suffix.length_le
      have hmore := length_of_dropBlanks_eq comma
      rw [valuesUnder_cons, fieldPolicy_append, readFields_of_entry found key item (by omega)]
      cases fieldPolicy found (valuesUnder "missing_root" [(k, n)]) with
      | error f => rfl
      | ok found =>
        simp only [bind, Except.bind, continueFields, comma]
        exact ih spelled nonempty found (by omega)

theorem readFields_dropBlanks (steps : Nat) (found : Option MissingRoot) (cs : List Char) :
    readFields steps found (dropBlanks cs) = readFields steps found cs := by
  cases steps with
  | zero => rfl
  | succ steps => rw [readFields, readFields, readKey, readKey, dropBlanks_dropBlanks]

theorem readConfig_eq {cs rest : List Char} {entries : List (String × Node)}
    (h : Spelled cs (.map entries) rest) :
    readConfig cs =
      (fieldPolicy none (valuesUnder "missing_root" entries)).map fun found => (found, rest) := by
  generalize hn : Node.map entries = n at h
  cases h with
  | @scalar _ _ s => cases s <;> cases hn
  | list => cases hn
  | map opened spelled =>
    cases hn
    have hlength := length_of_dropBlanks_eq opened
    rcases spelled.closed_or_nonempty with ⟨rfl, closed⟩ | hnonempty
    · simp only [readConfig, opened, closed]
      rfl
    · have hnot := spelled.not_closed hnonempty
      simp only [readConfig, opened, readFields_dropBlanks]
      exact spelled.readFields_eq hnonempty none (by rw [stepBound]; omega)

end Node

/-- Either there is no value, or there is one and it is written for the policy. -/
theorem fieldPolicy_eq_ok_iff {values : List Node} {found : Option MissingRoot} :
    fieldPolicy none values = .ok found ↔
      (values = [] ∧ found = none) ∨ ∃ n m, values = [n] ∧ m.WrittenAs n ∧ found = some m := by
  match values with
  | [] =>
    constructor
    · intro h
      cases h
      exact .inl ⟨rfl, rfl⟩
    · rintro (⟨-, rfl⟩ | ⟨n, m, h, -⟩)
      · rfl
      · cases h
  | [n] =>
    rw [fieldPolicy_one]
    constructor
    · intro h
      cases hpolicy : n.asPolicy with
      | error f =>
        rw [hpolicy] at h
        cases h
      | ok m =>
        rw [hpolicy] at h
        cases h
        exact .inr ⟨n, m, rfl, Node.asPolicy_eq_ok_iff.mp hpolicy, rfl⟩
    · rintro (⟨h, -⟩ | ⟨n', m, h, hwritten, rfl⟩)
      · cases h
      · cases h
        rw [Node.asPolicy_eq_ok_iff.mpr hwritten]
        rfl
  | n :: n' :: more =>
    obtain ⟨f, hf⟩ := fieldPolicy_two n n' more
    rw [hf]
    constructor
    · intro h
      cases h
    · rintro (⟨h, -⟩ | ⟨_, _, h, -⟩)
      · cases h
      · cases h

/-- **The configuration of an object depends on the values under `missing_root` alone**, with the
fault if there is one. -/
theorem Config.read_eq {text : String} {entries : List (String × Node)}
    (h : (Node.map entries).SpelledBy text) :
    Config.read text =
      (fieldPolicy none (valuesUnder "missing_root" entries)).map fun found =>
        ⟨found.getD .defaultFalse⟩ := by
  obtain ⟨rest, hspelled, hrest⟩ := h
  rw [Config.read, Node.readConfig_eq hspelled]
  cases fieldPolicy none (valuesUnder "missing_root" entries) with
  | error f => rfl
  | ok found =>
    simp only [Except.map, bind, Except.bind, Node.expectEnd_eq_ok_iff.mpr hrest]
    rfl

/-- The values under `missing_root` are a single one that is written for the policy. -/
def SetsPolicy (values : List Node) (m : MissingRoot) : Prop :=
  ∃ n, values = [n] ∧ m.WrittenAs n

theorem Config.read_eq_ok_iff {text : String} {entries : List (String × Node)} {m : MissingRoot}
    (h : (Node.map entries).SpelledBy text) :
    Config.read text = .ok ⟨m⟩ ↔
      (valuesUnder "missing_root" entries = [] ∧ m = .defaultFalse) ∨
        SetsPolicy (valuesUnder "missing_root" entries) m := by
  rw [Config.read_eq h]
  constructor
  · intro hread
    cases hfield : fieldPolicy none (valuesUnder "missing_root" entries) with
    | error f =>
      rw [hfield] at hread
      cases hread
    | ok found =>
      rw [hfield] at hread
      cases hread
      rcases fieldPolicy_eq_ok_iff.mp hfield with ⟨hvalues, rfl⟩ | ⟨n, m, hvalues, hwritten, rfl⟩
      · exact .inl ⟨hvalues, rfl⟩
      · exact .inr ⟨n, hvalues, hwritten⟩
  · rintro (⟨hvalues, rfl⟩ | ⟨n, hvalues, hwritten⟩)
    · rw [fieldPolicy_eq_ok_iff.mpr (.inl ⟨hvalues, rfl⟩)]
      rfl
    · rw [fieldPolicy_eq_ok_iff.mpr (.inr ⟨n, m, hvalues, hwritten, rfl⟩)]
      rfl

/-! ### Loading a text -/

theorem Config.load_text_eq_ok_iff {text : String} {c : Config} :
    Config.load (.text text) = .ok c ↔ Config.read text = .ok c := by
  rw [Config.load]
  cases Config.read text <;> simp

/-- A text that is no configuration is no other kind of failure. -/
theorem Config.exists_load_text_eq_error_iff {text : String} :
    (∃ f, Config.load (.text text) = .error (.config f)) ↔ ∀ m, Config.read text ≠ .ok ⟨m⟩ := by
  rw [Config.load]
  cases Config.read text with
  | error f => simp
  | ok c =>
    obtain ⟨m⟩ := c
    simp

/-- **The configured policy is what the text says**, for every text that is an object.  The strict
policy comes from the one value under `missing_root` that is written for it, the default one from a
value that is written for it or from no value.  Everything else is a fault of the configuration, in
particular a second value, even if it is the first one again.  Entries with other keys make no
difference: objects with the same entries under `missing_root` come to the same, whatever stands
before, between and after these. -/
theorem policy_told_by_one_field {text : String} {entries : List (String × Node)}
    (h : (Node.map entries).SpelledBy text) :
    let outcome := Config.load (.text text)
    let values := valuesUnder "missing_root" entries
    (outcome = .ok ⟨.error⟩ ↔ SetsPolicy values .error) ∧
      (outcome = .ok ⟨.defaultFalse⟩ ↔ values = [] ∨ SetsPolicy values .defaultFalse) ∧
      ((∃ f, outcome = .error (.config f)) ↔ values ≠ [] ∧ ∀ m, ¬ SetsPolicy values m) ∧
      (1 < values.length → ∃ f, outcome = .error (.config f)) ∧
      ∀ text' entries', (Node.map entries').SpelledBy text' →
        (entries'.filter fun e => e.1 = "missing_root") =
          (entries.filter fun e => e.1 = "missing_root") →
        Config.load (.text text') = outcome := by
  intro outcome values
  have hfault : (∃ f, outcome = .error (.config f)) ↔ values ≠ [] ∧ ∀ m, ¬ SetsPolicy values m := by
    rw [Config.exists_load_text_eq_error_iff]
    simp only [Ne, Config.read_eq_ok_iff h, not_or, not_and, forall_and]
    exact and_congr_left' ⟨fun hne hvalues => hne .defaultFalse hvalues rfl,
      fun hne m hvalues => absurd hvalues hne⟩
  refine ⟨?_, ?_, hfault, ?_, ?_⟩
  · rw [Config.load_text_eq_ok_iff, Config.read_eq_ok_iff h]
    exact or_iff_right fun hdefault => nomatch hdefault.2
  · rw [Config.load_text_eq_ok_iff, Config.read_eq_ok_iff h, and_iff_left rfl]
  · intro hlength
    refine hfault.mpr ⟨fun hvalues => ?_, ?_⟩
    · rw [hvalues] at hlength
      cases hlength
    · rintro m ⟨n, hvalues, -⟩
      rw [hvalues] at hlength
      exact absurd hlength (Nat.lt_irrefl 1)
  · intro text' entries' h' hsame
    have hread : Config.read text' = Config.read text := by
      rw [Config.read_eq h', Config.read_eq h, valuesUnder, hsame, valuesUnder]
    show Config.load (.text text') = Config.load (.text text)
    rw [Config.load, Config.load, hread]

/-- A strict policy between other entries, one of which has the field inside its value, the same
policy alone, and the same policy twice. -/
theorem strict_policy_between_others :
    let strict : Node := .map [("error", .null)]
    let text := "\x7b\"a\":\x7b\"missing_root\":[]\x7d," ++
      "\"missing_root\":\x7b\"error\":null\x7d,\"a\":[]\x7d"
    let entries : List (String × Node) :=
      [("a", .map [("missing_root", .list [])]), ("missing_root", strict), ("a", .list [])]
    let alone := "\x7b\"missing_root\":\x7b\"error\":null\x7d\x7d"
    let twice := "\x7b\"missing_root\":\"error\",\"missing_root\":\"error\"\x7d"
    let values := [.string "error", .string "error"]
    (Node.map entries).SpelledBy text ∧ Config.load (.text text) = .ok .strict ∧
      (Node.map [("missing_root", strict)]).SpelledBy alone ∧
      Config.load (.text alone) = .ok .strict ∧
      (Node.map (values.map ("missing_root", ·))).SpelledBy twice ∧
      ∃ f, Config.load (.text twice) = .error (.config f) := by
  intro strict text entries alone twice values
  have htext : (Node.map entries).SpelledBy text := by
    apply Node.spelledBy_of_read
    simp only [Node.read, Document.read, text, String.toList_append, String.reduceToList]
    rfl
  have halone : (Node.map [("missing_root", strict)]).SpelledBy alone := by
    apply Node.spelledBy_of_read
    simp only [Node.read, Document.read, alone, String.reduceToList]
    rfl
  have htwice : (Node.map (values.map ("missing_root", ·))).SpelledBy twice := by
    apply Node.spelledBy_of_read
    simp only [Node.read, Document.read, twice, String.reduceToList]
    rfl
  obtain ⟨hstrict, -, -, -, hsame⟩ := policy_told_by_one_field htext
  have hload : Config.load (.text text) = .ok .strict :=
    hstrict.mpr ⟨strict, rfl, .inr rfl⟩
  refine ⟨htext, hload, halone, (hsame alone _ halone rfl).trans hload, htwice, ?_⟩
  exact (policy_told_by_one_field htwice).2.2.2.1 (by decide)

end BooleanRules
