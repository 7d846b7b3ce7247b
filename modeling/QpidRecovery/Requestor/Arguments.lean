import QpidRecovery.Requestor.Process
import QpidRecovery.Recovery.BrokerObject

/-! The command line of the requestor. Options may stand anywhere, the other
arguments are read by their position, and defaults take the place of those
that are missing. -/
namespace QpidRecovery.Requestor

/-- What `main` reads. Until they are read the first two are not initialised. -/
structure Arguments where
  servicename : ServiceName
  brokerport : UInt32
  expectedProposers : UInt32
  expectedAcceptors : UInt32
  landmarkip : Option Text
  proposers : List Text
  acceptors : List Text
deriving DecidableEq, Repr

def Arguments.unread : Arguments := ⟨noName, 0, 0, 0, none, [], []⟩

/-- `isspace` in the C locale. -/
def isSpace (c : UInt8) : Bool := c = 32 || (9 ≤ c && c ≤ 13)

def isDigit (c : UInt8) : Bool := 48 ≤ c && c ≤ 57

/-- The value of the digits as an `unsigned long`. What is too large for it is
read as the largest, whatever the sign. -/
def strtoul (negative : Bool) (digits : Text) : UInt64 :=
  let n := digits.foldl (fun n c => n * 10 + (c - 48).toNat) 0
  if 2 ^ 64 ≤ n then UInt64.ofNat (2 ^ 64 - 1)
  else if negative then 0 - UInt64.ofNat n else UInt64.ofNat n

/-- `sscanf` with `%u`, which allows blanks and a sign in front of the digits
and ignores what follows them. Of the `unsigned long` the low half is kept. -/
def sscanfUnsigned (arg : Text) : Option UInt32 :=
  let s := arg.dropWhile isSpace
  let digits := (match s with
    | 43 :: s => s
    | 45 :: s => s
    | s => s).takeWhile isDigit
  if digits = [] then none else some (strtoul (s.head? = some 45) digits).toUInt32

/-- The strings `-l` and `--landmark`. -/
def landmarkOptions : List Text :=
  [[45, 108], [45, 45, 108, 97, 110, 100, 109, 97, 114, 107]]

/-- The string `paxoslist.txt`. -/
def paxoslist : Text := [112, 97, 120, 111, 115, 108, 105, 115, 116, 46, 116, 120, 116]

/-- An empty service name, port 5672, no proposers and no acceptors. -/
def defaultargv : List Text := [[], [53, 54, 55, 50], [48], [48], paxoslist, paxoslist]

section Main
variable (files : Text → Option (List Text))

/-- The argument in position `readcount`. A file that cannot be opened ends
the process like an argument that cannot be read. -/
def readArguments (readcount : Nat) (arg : Text) (a : Arguments) : Option Arguments :=
  match readcount with
  | 0 =>
      if h : 0 ∉ arg ∧ arg.length < SERVICE_NAME_LENGTH then
        some { a with servicename := ⟨arg, h.1, h.2⟩ }
      else none
  | 1 => (sscanfUnsigned arg).map fun u => { a with brokerport := u }
  | 2 => (sscanfUnsigned arg).map fun u => { a with expectedProposers := u }
  | 3 => (sscanfUnsigned arg).map fun u => { a with expectedAcceptors := u }
  | 4 => (files arg).map fun l => { a with proposers := a.proposers ++ l }
  | 5 => (files arg).map fun l => { a with acceptors := a.acceptors ++ l }
  | _ => none

/-- The loop over `argv`, with the number of arguments read by position. -/
def readCommandLine : Nat → List Text → Arguments → Option (Nat × Arguments)
  | readcount, [], a => some (readcount, a)
  | readcount, [arg], a =>
      if arg ∈ landmarkOptions then none
      else (readArguments files readcount arg a).map fun a => (readcount + 1, a)
  | readcount, arg :: next :: rest, a =>
      if arg ∈ landmarkOptions then readCommandLine readcount rest { a with landmarkip := some next }
      else (readArguments files readcount arg a).bind fun a =>
        readCommandLine (readcount + 1) (next :: rest) a

/-- The loop over the defaults that are left. -/
def readDefaults : Nat → List Text → Arguments → Option Arguments
  | _, [], a => some a
  | readcount, arg :: rest, a =>
      (readArguments files readcount arg a).bind fun a => readDefaults (readcount + 1) rest a

/-- The block that reads the arguments. In centralized mode nothing is expected. -/
def mainArguments (argv : List Text) : Option Arguments :=
  (readCommandLine files 0 argv .unread).bind fun read =>
    (readDefaults files read.1 (defaultargv.drop read.1) read.2).bind fun a =>
      if a.servicename.bytes = [] ∧ a.landmarkip = none then none
      else if a.landmarkip.isSome then some { a with expectedProposers := 0, expectedAcceptors := 0 }
      else some a

end Main

/-- The process that the arguments start, if it expects no more than fits. -/
def Arguments.config (a : Arguments) : Option Config :=
  if h : a.expectedProposers.toNat ≤ MAX_PROPOSERS ∧ a.expectedAcceptors.toNat ≤ MAX_ACCEPTORS then
    some
      { servicename := a.servicename
        brokerport := a.brokerport
        expectedProposers := a.expectedProposers.toNat
        expectedAcceptors := a.expectedAcceptors.toNat
        proposersFit := h.1
        acceptorsFit := h.2 }
  else none

section Landmark
variable {files : Text → Option (List Text)} {a b : Arguments}

/-- Only the first argument by position sets the service name. -/
theorem readArguments_keeps {readcount : Nat} {arg : Text}
    (h : readArguments files (readcount + 1) arg a = some b) :
    b.servicename = a.servicename ∧ b.landmarkip = a.landmarkip := by
  unfold readArguments at h
  split at h
  next hFirst => exact absurd hFirst (Nat.succ_ne_zero _)
  all_goals first
    | cases h
    | obtain ⟨_, _, rfl⟩ := Option.map_eq_some_iff.mp h
      exact ⟨rfl, rfl⟩

theorem readDefaults_keeps {readcount : Nat} {argv : List Text}
    (h : readDefaults files (readcount + 1) argv a = some b) :
    b.servicename = a.servicename ∧ b.landmarkip = a.landmarkip := by
  induction argv generalizing readcount a with
  | nil =>
      cases h
      exact ⟨rfl, rfl⟩
  | cons arg rest ih =>
      obtain ⟨c, hFirst, hRest⟩ := Option.bind_eq_some_iff.mp h
      obtain ⟨hName, hLandmark⟩ := readArguments_keeps hFirst
      obtain ⟨hName', hLandmark'⟩ := ih hRest
      exact ⟨hName'.trans hName, hLandmark'.trans hLandmark⟩

/-- With a landmark and nothing else the service has no name. -/
theorem mainArguments_landmark {flag ip : Text} (hFlag : flag ∈ landmarkOptions)
    (h : mainArguments files [flag, ip] = some a) :
    a.servicename = noName ∧ a.landmarkip = some ip := by
  have hRead : readCommandLine files 0 [flag, ip] .unread =
      some (0, { Arguments.unread with landmarkip := some ip }) := by
    simp [readCommandLine, hFlag]
  rw [mainArguments, hRead, Option.bind_some] at h
  obtain ⟨b, hDefaults, hStart⟩ := Option.bind_eq_some_iff.mp h
  obtain ⟨c, hName, hRest⟩ := Option.bind_eq_some_iff.mp hDefaults
  cases hName
  have hKept := readDefaults_keeps hRest
  have hLandmark : b.landmarkip = some ip := hKept.2
  rw [if_neg (by simp [hLandmark]), if_pos (by simp [hLandmark])] at hStart
  cases hStart
  exact ⟨hKept.1, hLandmark⟩

example : (mainArguments (fun _ => some []) [[45, 108], [49]]).map (fun a =>
    (a.brokerport, a.expectedProposers)) = some (5672, 0) := by
  decide

end Landmark

end QpidRecovery.Requestor
