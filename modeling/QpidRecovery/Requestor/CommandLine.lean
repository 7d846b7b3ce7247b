import QpidRecovery.Recovery.UrlParsing
import QpidRecovery.Setting.NameList

/-! What the command line and the name files say. The options are taken out
wherever they stand, the defaults are put behind the arguments that are left,
and what was written is read back. -/
namespace QpidRecovery.Requestor

open NameList

section Numbers

theorem isDigit_digit {d : Nat} (hd : d < 10) :
    isDigit (48 + d.toUInt8) = true ∧ isSpace (48 + d.toUInt8) = false ∧
      48 + d.toUInt8 ≠ 43 ∧ 48 + d.toUInt8 ≠ 45 := by
  interval_cases d <;> decide

theorem digit_value {d : Nat} (hd : d < 10) : ((48 + d.toUInt8) - 48).toNat = d := by
  interval_cases d <;> decide

/-- The characters of digits have the value of the digits. -/
theorem foldl_characters (l : List Nat) (hl : ∀ d ∈ l, d < 10) (value : Nat) :
    (l.map fun d => 48 + d.toUInt8).foldl (fun n c => n * 10 + (c - 48).toNat) value =
      l.foldl (fun value d => d + 10 * value) value := by
  induction l generalizing value with
  | nil => rfl
  | cons d l ih =>
      have hStep : value * 10 + ((48 + d.toUInt8) - 48).toNat = d + 10 * value := by
        rw [digit_value (hl d List.mem_cons_self)]
        omega
      rw [List.map_cons, List.foldl_cons, hStep, List.foldl_cons,
        ih fun c hc => hl c (List.mem_cons_of_mem _ hc)]

/-- No number of 32 bits is too large. -/
theorem strtoul_utos (u : UInt32) : strtoul false (utos u) = u.toUInt64 := by
  have hValue : (utos u).foldl (fun n c => n * 10 + (c - 48).toNat) 0 = u.toNat := by
    rw [utos_eq, foldl_characters _ (fun d hd => digits_lt hd), foldl_digits]
  have hLt := u.toNat_lt
  have hSmall : ¬ 2 ^ 64 ≤ u.toNat := by omega
  unfold strtoul
  rw [hValue]
  dsimp only
  rw [if_neg hSmall, if_neg Bool.false_ne_true, UInt64.ofNat_uInt32ToNat]

theorem digits_ne_nil (u : UInt32) : digits u ≠ [] := by
  unfold digits
  split
  · exact List.cons_ne_nil _ _
  · next hu =>
      intro hNil
      have hZero : u.toNat = 0 := Nat.digits_eq_nil_iff_eq_zero.mp (List.reverse_eq_nil_iff.mp hNil)
      exact hu (UInt32.toNat_inj.mp hZero)

/-- Digits and nothing else are all read. -/
theorem sscanfUnsigned_digits {c : UInt8} {rest : Text} (hSpace : isSpace c = false)
    (hSign : c ≠ 43 ∧ c ≠ 45) (hDigits : ∀ d ∈ c :: rest, isDigit d = true) :
    sscanfUnsigned (c :: rest) = some (strtoul false (c :: rest)).toUInt32 := by
  have hDrop : (c :: rest).dropWhile isSpace = c :: rest := by simp [hSpace]
  have hTake : (c :: rest).takeWhile isDigit = c :: rest := List.takeWhile_eq_self_iff.mpr hDigits
  unfold sscanfUnsigned
  rw [hDrop]
  dsimp only
  split
  · next heq => exact absurd (List.cons.inj heq).1 hSign.1
  · next heq => exact absurd (List.cons.inj heq).1 hSign.2
  · rw [hTake]
    simp [hSign.2]

/-- A number is read as it is written. -/
theorem sscanfUnsigned_utos (u : UInt32) : sscanfUnsigned (utos u) = some u := by
  have hValue : (strtoul false (utos u)).toUInt32 = u := by
    rw [strtoul_utos, UInt32.toUInt32_toUInt64]
  have hLess : ∀ d ∈ digits u, d < 10 := fun d hd => digits_lt hd
  rw [utos_eq] at hValue ⊢
  cases hDigits : digits u with
  | nil => exact absurd hDigits (digits_ne_nil u)
  | cons d rest =>
      rw [hDigits] at hValue hLess
      obtain ⟨_, hSpace, hSign⟩ := isDigit_digit (hLess d List.mem_cons_self)
      rw [List.map_cons] at hValue ⊢
      rw [sscanfUnsigned_digits hSpace hSign, hValue]
      intro c hc
      have hMem : c ∈ (d :: rest).map fun d => 48 + d.toUInt8 := hc
      obtain ⟨e, he, rfl⟩ := List.mem_map.mp hMem
      exact (isDigit_digit (hLess e he)).1

end Numbers

section CommandLine
variable {files : Text → Option (List Text)} {a b : Arguments}

/-- A command line with its options taken out, and the last landmark. -/
inductive Options : List Text → List Text → Option Text → Prop where
  | nil : Options [] [] none
  | argument {arg : Text} {argv rest : List Text} {landmarkip : Option Text}
      (hArg : arg ∉ landmarkOptions) (hRest : Options argv rest landmarkip) :
      Options (arg :: argv) (arg :: rest) landmarkip
  | landmark {flag ip : Text} {argv rest : List Text} {landmarkip : Option Text}
      (hFlag : flag ∈ landmarkOptions) (hRest : Options argv rest landmarkip) :
      Options (flag :: ip :: argv) rest (some (landmarkip.getD ip))

def Arguments.withLandmark (landmarkip : Option Text) (a : Arguments) : Arguments :=
  { a with landmarkip := landmarkip.or a.landmarkip }

/-- The options and the other arguments do not see each other. -/
theorem readArguments_withLandmark (landmarkip : Option Text) (readcount : Nat) (arg : Text)
    (a : Arguments) :
    readArguments files readcount arg (a.withLandmark landmarkip) =
      (readArguments files readcount arg a).map (Arguments.withLandmark landmarkip) := by
  unfold readArguments
  split
  · split_ifs <;> rfl
  · rw [Option.map_map]
    rfl
  · rw [Option.map_map]
    rfl
  · rw [Option.map_map]
    rfl
  · rw [Option.map_map]
    rfl
  · rw [Option.map_map]
    rfl
  · rfl

theorem readDefaults_withLandmark (landmarkip : Option Text) (readcount : Nat) (argv : List Text)
    (a : Arguments) :
    readDefaults files readcount argv (a.withLandmark landmarkip) =
      (readDefaults files readcount argv a).map (Arguments.withLandmark landmarkip) := by
  induction argv generalizing readcount a with
  | nil => rfl
  | cons arg rest ih =>
      rw [readDefaults, readArguments_withLandmark, Option.bind_map, readDefaults, Option.map_bind]
      congr 1
      funext b
      exact ih (readcount + 1) b

theorem readCommandLine_argument {arg : Text} (hArg : arg ∉ landmarkOptions) (readcount : Nat)
    (argv : List Text) (a : Arguments) :
    readCommandLine files readcount (arg :: argv) a =
      (readArguments files readcount arg a).bind fun a =>
        readCommandLine files (readcount + 1) argv a := by
  cases argv with
  | nil =>
      rw [readCommandLine, if_neg hArg]
      cases readArguments files readcount arg a <;> rfl
  | cons next rest => rw [readCommandLine, if_neg hArg]

/-- Only the arguments without the options count. -/
theorem readCommandLine_eq {argv rest : List Text} {landmarkip : Option Text}
    (h : Options argv rest landmarkip) (readcount : Nat) (a : Arguments) :
    readCommandLine files readcount argv a =
      (readDefaults files readcount rest a).map fun b =>
        (readcount + rest.length, b.withLandmark landmarkip) := by
  induction h generalizing readcount a with
  | nil => rfl
  | @argument arg argv rest landmarkip hArg hRest ih =>
      rw [readCommandLine_argument hArg, readDefaults, Option.map_bind]
      congr 1
      funext b
      rw [ih]
      simp only [Function.comp_apply, List.length_cons]
      congr 1
      funext c
      rw [Nat.add_assoc, Nat.add_comm 1]
  | @landmark flag ip argv rest landmarkip hFlag hRest ih =>
      have hSet : { a with landmarkip := some ip } = a.withLandmark (some ip) := rfl
      rw [readCommandLine, if_pos hFlag, hSet, ih, readDefaults_withLandmark, Option.map_map]
      congr 1
      funext b
      cases landmarkip <;> rfl

theorem readDefaults_append (readcount : Nat) (argv more : List Text) (a : Arguments) :
    readDefaults files readcount (argv ++ more) a =
      (readDefaults files readcount argv a).bind
        (readDefaults files (readcount + argv.length) more) := by
  induction argv generalizing readcount a with
  | nil => rfl
  | cons arg rest ih =>
      rw [List.cons_append, readDefaults, readDefaults, Option.bind_assoc]
      congr 1
      funext b
      rw [ih, List.length_cons, Nat.add_assoc, Nat.add_comm 1]

/-- The options may stand anywhere, and the defaults stand behind the other
arguments. -/
theorem mainArguments_eq {argv rest : List Text} {landmarkip : Option Text}
    (h : Options argv rest landmarkip) :
    mainArguments files argv =
      (readDefaults files 0 (rest ++ defaultargv.drop rest.length) .unread).bind fun a =>
        let a := a.withLandmark landmarkip
        if a.servicename.bytes = [] ∧ a.landmarkip = none then none
        else if a.landmarkip.isSome then
          some { a with expectedProposers := 0, expectedAcceptors := 0 }
        else some a := by
  rw [mainArguments, readCommandLine_eq h, readDefaults_append, Option.bind_map, Option.bind_assoc]
  congr 1
  funext b
  simp only [Function.comp_apply, Nat.zero_add]
  rw [readDefaults_withLandmark, Option.bind_map]
  rfl

/-- What is written as six arguments. -/
theorem readDefaults_written (name : ServiceName) (brokerport expectedProposers : UInt32)
    (expectedAcceptors : UInt32) {proposers acceptors : Text} {p q : List Text}
    (hProposers : files proposers = some p) (hAcceptors : files acceptors = some q) :
    readDefaults files 0 [name.bytes, utos brokerport, utos expectedProposers,
        utos expectedAcceptors, proposers, acceptors] .unread =
      some
        { servicename := name
          brokerport := brokerport
          expectedProposers := expectedProposers
          expectedAcceptors := expectedAcceptors
          landmarkip := none
          proposers := p
          acceptors := q } := by
  simp only [readDefaults, readArguments, sscanfUnsigned_utos, hProposers, hAcceptors]
  rw [dif_pos ⟨name.noNul, name.fits⟩]
  rfl

/-- The options stand anywhere among the arguments, those at the end that equal
their defaults may be left out, and the files have any blanks between their
names. What was written is read. -/
theorem mainArguments_written (contents : Text → Option Text) {argv rest : List Text}
    {landmarkip : Option Text} (hOptions : Options argv rest landmarkip) (name : ServiceName)
    (brokerport expectedProposers expectedAcceptors : UInt32) {proposers acceptors : Text}
    (hWritten : rest ++ defaultargv.drop rest.length = [name.bytes, utos brokerport,
      utos expectedProposers, utos expectedAcceptors, proposers, acceptors])
    (hNamed : name.bytes ≠ [] ∨ landmarkip ≠ none) (p q : NameFile)
    (hProposers : contents proposers = some p.text)
    (hAcceptors : contents acceptors = some q.text) :
    mainArguments (fun file => (contents file).map readNameList) argv =
      some
        { servicename := name
          brokerport := brokerport
          expectedProposers := if landmarkip = none then expectedProposers else 0
          expectedAcceptors := if landmarkip = none then expectedAcceptors else 0
          landmarkip := landmarkip
          proposers := p.names
          acceptors := q.names } := by
  have hRead : ∀ {file : Text} {f : NameFile}, contents file = some f.text →
      (contents file).map readNameList = some f.names := by
    intro file f hFile
    rw [hFile, Option.map_some, f.readNameList_text]
  rw [mainArguments_eq hOptions, hWritten,
    readDefaults_written name _ _ _ (hRead hProposers) (hRead hAcceptors), Option.bind_some]
  cases landmarkip with
  | none =>
      have hName : name.bytes ≠ [] := hNamed.resolve_right (absurd rfl)
      simp [Arguments.withLandmark, hName]
  | some ip => simp [Arguments.withLandmark]

/-- The hosts `10.0.0.1` and `10.0.0.2`, one in a line. -/
def twoHosts : NameFile where
  entries := [([], [49, 48, 46, 48, 46, 48, 46, 49]), ([10], [49, 48, 46, 48, 46, 48, 46, 50])]
  trailing := [10]
  spaces := by simp [isSpace]
  apart := by simp
  ends := by simp [isSpace]
  words := by simp [isSpace, URL_MAX_LENGTH]
  noNul := by simp

/-- No file but the default one can be opened. -/
def onlyPaxoslist (file : Text) : Option Text :=
  if file = paxoslist then some twoHosts.text else none

/-- With a landmark between the arguments and no numbers. -/
theorem mainArguments_written_landmark :
    mainArguments (fun file => (onlyPaxoslist file).map readNameList)
        [brokerService.bytes, [45, 108], localhost.bytes, utos 5672] =
      some ⟨brokerService, 5672, 0, 0, some localhost.bytes, twoHosts.names, twoHosts.names⟩ := by
  have hOptions : Options [brokerService.bytes, [45, 108], localhost.bytes, utos 5672]
      [brokerService.bytes, utos 5672] (some localhost.bytes) :=
    .argument (by decide) (.landmark (by decide) (.argument (by decide) .nil))
  exact mainArguments_written onlyPaxoslist hOptions brokerService 5672 0 0 rfl (.inr nofun)
    twoHosts twoHosts (if_pos rfl) (if_pos rfl)

end CommandLine

end QpidRecovery.Requestor
