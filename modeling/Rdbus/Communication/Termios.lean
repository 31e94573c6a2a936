import Rdbus.Config.FileAcceptance
import Rdbus.Foundation.BitEdits

/-!
# Attributes of a serial port

What the constructor of `Connection` makes of the attributes a port has.  The
masks are those of Linux; a speed is kept apart from the flags, as a rate with a
constant of its own.
-/

namespace Rdbus.Communication

open Foundation
open Config

def rates : List Nat :=
  [0, 50, 75, 110, 134, 150, 200, 300, 600, 1200, 1800, 2400, 4800, 9600, 19200, 38400, 57600,
    115200, 230400]

/-- `B0` to `B230400`. -/
structure Speed where
  rate : Nat
  known : rate ∈ rates
  deriving DecidableEq

structure Termios where
  cIflag : BitVec 32
  cOflag : BitVec 32
  cCflag : BitVec 32
  cLflag : BitVec 32
  cCc : Vector UInt8 32
  cIspeed : Speed
  cOspeed : Speed
  deriving DecidableEq

namespace Termios

def ignbrk : BitVec 32 := 0x1
def brkint : BitVec 32 := 0x2
def ignpar : BitVec 32 := 0x4
def parmrk : BitVec 32 := 0x8
def inpck : BitVec 32 := 0x10
def istrip : BitVec 32 := 0x20
def inlcr : BitVec 32 := 0x40
def igncr : BitVec 32 := 0x80
def icrnl : BitVec 32 := 0x100
def ixon : BitVec 32 := 0x400
def ixoff : BitVec 32 := 0x1000

def opost : BitVec 32 := 0x1

def csize : BitVec 32 := 0x30
def cs8 : BitVec 32 := 0x30
def cstopb : BitVec 32 := 0x40
def cread : BitVec 32 := 0x80
def parenb : BitVec 32 := 0x100
def parodd : BitVec 32 := 0x200
def clocal : BitVec 32 := 0x800
def cmspar : BitVec 32 := 0x40000000
def crtscts : BitVec 32 := 0x80000000

def isig : BitVec 32 := 0x1
def icanon : BitVec 32 := 0x2
def echo : BitVec 32 := 0x8
def echonl : BitVec 32 := 0x40
def iexten : BitVec 32 := 0x8000

def vtime : Fin 32 := 5
def vmin : Fin 32 := 6

def rawInput : BitVec 32 :=
  ignbrk ||| brkint ||| parmrk ||| istrip ||| inlcr ||| igncr ||| icrnl ||| ixon

def rawLocal : BitVec 32 := echo ||| echonl ||| icanon ||| isig ||| iexten

def cfmakeraw (t : Termios) : Termios :=
  { t with
    cIflag := clearBits t.cIflag rawInput
    cOflag := clearBits t.cOflag opost
    cLflag := clearBits t.cLflag rawLocal
    cCflag := setBits (clearBits t.cCflag (csize ||| parenb)) cs8 }

end Termios

namespace Connection

open Termios

/-- The `switch` over the parity. -/
def setParity (parity : Serial.Parity) (t : Termios) : Termios :=
  match parity with
  | .even => { t with cCflag := clearBits t.cCflag parodd }
  | .odd => { t with cCflag := setBits t.cCflag parodd }
  | .none => { t with cCflag := clearBits t.cCflag parenb }

def setupIo (settings : Serial) (t : Termios) : Termios :=
  let t := cfmakeraw t
  let t := setParity settings.parity t
  let t := if settings.parity = .even ∨ settings.parity = .odd then
      { t with
        cCflag := setBits t.cCflag parenb
        cIflag := setBits (clearBits t.cIflag ignpar) inpck }
    else t
  let t := if settings.stopBitsCount = 2 then { t with cCflag := setBits t.cCflag cstopb } else t
  let t := { t with cCc := (t.cCc.set vtime 10).set vmin 0 }
  let t := { t with cCflag := clearBits t.cCflag crtscts }
  { t with cCflag := setBits t.cCflag (cread ||| clocal) }

/-- `B##s` for the rate; the parameter is a `speed_t`. -/
def speed (speed : UInt32) : Except Throw Speed :=
  if h : speed.toNat ∈ rates then .ok ⟨speed.toNat, h⟩
  else .error (osException (str "Invalid baud rate!"))

/-- `cfsetospeed` and `cfsetispeed` take every constant. -/
def setBaudRate (baudRate : UInt32) (t : Termios) : Except Throw Termios := do
  let speed ← speed baudRate
  .ok { t with cOspeed := speed, cIspeed := speed }

/-- Between `tcgetattr` and `tcflush`. -/
def configure (settings : Serial) (t : Termios) : Except Throw Termios :=
  setBaudRate (UInt32.ofInt settings.baudRate) (setupIo settings t)

/-- The calls of one opening: what each returns, or the text of `getError`. -/
structure Calls where
  openPath : Except Bytes Int
  tcgetattr : Except Bytes Unit
  tcflush : Except Bytes Unit
  tcsetattr : Except Bytes Unit

/-- A call of `OSExtended`, which throws where the system returns `-1`. -/
def extended {α : Type} (call : Bytes) (status : Except Bytes α) : Except Throw α :=
  status.mapError fun error => osException (str "Error at " ++ call ++ str " " ++ error)

structure Opened where
  fileDescriptor : Int
  responseTimeout : Int
  lineTimeout : Int
  deriving DecidableEq

/-- The constructor: the connection, and the attributes the port has from then on. -/
def connect (calls : Calls) (settings : Serial) (t : Termios) :
    Except Throw (Opened × Termios) := do
  let fileDescriptor ← extended (str "open") calls.openPath
  extended (str "tcgetattr") calls.tcgetattr
  let termios ← configure settings t
  extended (str "tcflush") calls.tcflush
  extended (str "tcsetattr") calls.tcsetattr
  .ok (⟨fileDescriptor, settings.responseTimeout, settings.lineTimeout⟩, termios)

end Connection

/-- One run of the program on the port. -/
structure Opening where
  calls : Connection.Calls
  settings : Serial

/-- A constructor that throws has not reached the end of `tcsetattr`. -/
def Opening.leaves (t : Termios) (opening : Opening) : Termios :=
  match Connection.connect opening.calls opening.settings t with
  | .ok (_, termios) => termios
  | .error _ => t

/-- A port keeps its attributes when it is closed. -/
def attributesAfter (openings : List Opening) (t : Termios) : Termios :=
  openings.foldl Opening.leaves t

/-! ## What the port is set to -/

namespace Termios

/-- The parity a port with these attributes generates and expects; none of these for mark and
space parity. -/
def parity (t : Termios) : Option Serial.Parity :=
  if t.cCflag &&& parenb = 0 then some .none
  else if t.cCflag &&& cmspar ≠ 0 then none
  else if t.cCflag &&& parodd = 0 then some .even else some .odd

def stopBits (t : Termios) : Int := if t.cCflag &&& cstopb = 0 then 1 else 2

/-- Bytes go through as they are, in both directions, and no others. -/
structure Raw (t : Termios) : Prop where
  input : t.cIflag &&& rawInput = 0
  flow : t.cIflag &&& ixoff = 0
  output : t.cOflag &&& opost = 0
  terminal : t.cLflag &&& rawLocal = 0
  size : t.cCflag &&& csize = cs8
  modem : t.cCflag &&& (cread ||| clocal ||| crtscts) = cread ||| clocal
  waits : t.cCc[vtime] = 10 ∧ t.cCc[vmin] = 0

/-- The frame on the line is the one in the file. -/
structure Carries (t : Termios) (settings : Serial) : Prop where
  parity : t.parity = some settings.parity
  checked : settings.parity ≠ .none → t.cIflag &&& (inpck ||| ignpar) = inpck
  stopBits : t.stopBits = settings.stopBitsCount
  speed : (t.cIspeed.rate : Int) = settings.baudRate ∧ (t.cOspeed.rate : Int) = settings.baudRate

end Termios

namespace Connection

open Termios

def inputEdit (parity : Serial.Parity) : BitEdit 32 :=
  let edit := BitEdit.nothing.andClear rawInput
  if parity = .even ∨ parity = .odd then (edit.andClear ignpar).andSet inpck else edit

def controlEdit (parity : Serial.Parity) (two : Bool) : BitEdit 32 :=
  let edit := (BitEdit.nothing.andClear (csize ||| parenb)).andSet cs8
  let edit := match parity with
    | .even => edit.andClear parodd
    | .odd => edit.andSet parodd
    | .none => edit.andClear parenb
  let edit := if parity = .even ∨ parity = .odd then edit.andSet parenb else edit
  let edit := if two then edit.andSet cstopb else edit
  (edit.andClear crtscts).andSet (cread ||| clocal)

/-- `setupIo` as one edit of each word. -/
theorem setupIo_eq (settings : Serial) (t : Termios) : setupIo settings t =
    { t with
      cIflag := (inputEdit settings.parity).apply t.cIflag
      cOflag := (BitEdit.nothing.andClear opost).apply t.cOflag
      cLflag := (BitEdit.nothing.andClear rawLocal).apply t.cLflag
      cCflag := (controlEdit settings.parity (settings.stopBitsCount = 2)).apply t.cCflag
      cCc := (t.cCc.set vtime 10).set vmin 0 } := by
  unfold setupIo setParity cfmakeraw inputEdit controlEdit
  cases settings.parity <;> by_cases htwo : settings.stopBitsCount = 2 <;>
    simp [htwo, -BitVec.ofNat_eq_ofNat]

theorem setupIo_flow (settings : Serial) (t : Termios) :
    (setupIo settings t).cIflag &&& ixoff = t.cIflag &&& ixoff := by
  rw [setupIo_eq, BitEdit.apply_and_of_disjoint]
  cases settings.parity <;> decide

theorem setupIo_mark (settings : Serial) (t : Termios) :
    (setupIo settings t).cCflag &&& cmspar = t.cCflag &&& cmspar := by
  rw [setupIo_eq, BitEdit.apply_and_of_disjoint]
  cases settings.parity <;> cases decide (settings.stopBitsCount = 2) <;> decide

/-- Only the flow control of the input is left as the port had it. -/
theorem setupIo_raw_iff (settings : Serial) (t : Termios) :
    (setupIo settings t).Raw ↔ t.cIflag &&& ixoff = 0 := by
  rw [← setupIo_flow settings t]
  constructor
  case mp => exact Raw.flow
  case mpr =>
    intro hflow
    rw [setupIo_eq] at hflow ⊢
    constructor
    case input =>
      rw [BitEdit.apply_and]
      all_goals cases settings.parity <;> decide
    case flow => exact hflow
    case output =>
      rw [BitEdit.apply_and] <;> decide
    case terminal =>
      rw [BitEdit.apply_and] <;> decide
    case size =>
      rw [BitEdit.apply_and]
      all_goals cases settings.parity <;> cases decide (settings.stopBitsCount = 2) <;> decide
    case modem =>
      rw [BitEdit.apply_and]
      all_goals cases settings.parity <;> cases decide (settings.stopBitsCount = 2) <;> decide
    case waits =>
      constructor <;> simp [vtime, vmin]

/-- Nothing clears the flag that makes even and odd space and mark. -/
theorem setupIo_parity_iff (settings : Serial) (t : Termios) :
    (setupIo settings t).parity = some settings.parity ↔
      settings.parity = .none ∨ t.cCflag &&& cmspar = 0 := by
  rw [Termios.parity, setupIo_mark, setupIo_eq]
  rcases hparity : settings.parity with _ | _ | _
  case none =>
    rw [BitEdit.apply_and, if_pos]
    · simp
    all_goals cases decide (settings.stopBitsCount = 2) <;> decide
  case even =>
    rw [BitEdit.apply_and, if_neg, BitEdit.apply_and, if_pos (c := _ &&& parodd = 0)]
    · by_cases hmark : t.cCflag &&& cmspar = 0 <;> simp [hmark]
    all_goals cases decide (settings.stopBitsCount = 2) <;> decide
  case odd =>
    rw [BitEdit.apply_and, if_neg, BitEdit.apply_and, if_neg (c := _ &&& parodd = 0)]
    · by_cases hmark : t.cCflag &&& cmspar = 0 <;> simp [hmark]
    all_goals cases decide (settings.stopBitsCount = 2) <;> decide

theorem setupIo_checked (settings : Serial) (t : Termios) (h : settings.parity ≠ .none) :
    (setupIo settings t).cIflag &&& (inpck ||| ignpar) = inpck := by
  rw [setupIo_eq, BitEdit.apply_and]
  all_goals cases hparity : settings.parity with
    | none => exact absurd hparity h
    | even | odd => decide

/-- Nothing clears the second stop bit. -/
theorem setupIo_stopBits (settings : Serial) (t : Termios) :
    (setupIo settings t).stopBits = if settings.stopBitsCount = 2 then 2 else t.stopBits := by
  rw [setupIo_eq, stopBits]
  by_cases htwo : settings.stopBitsCount = 2
  case pos =>
    rw [decide_eq_true htwo, BitEdit.apply_and, if_pos htwo, if_neg]
    all_goals cases settings.parity <;> decide
  case neg =>
    rw [decide_eq_false htwo, BitEdit.apply_and_of_disjoint, if_neg htwo, stopBits]
    cases settings.parity <;> decide

theorem setupIo_setupIo (settings : Serial) (t : Termios) :
    setupIo settings (setupIo settings t) = setupIo settings t := by
  simp only [setupIo_eq, BitEdit.apply_apply]
  congr 1
  ext i hi
  simp only [Vector.getElem_set]
  grind

theorem speed_eq_ok {n : UInt32} {known : Speed} : speed n = .ok known ↔ known.rate = n.toNat := by
  obtain ⟨rate, hrate⟩ := known
  rw [speed]
  split
  case isTrue => simp only [Except.ok.injEq, Speed.mk.injEq, eq_comm]
  case isFalse hunknown =>
    constructor
    · intro h
      cases h
    · rintro rfl
      exact absurd hrate hunknown

/-- The rate of the file is an `int`. -/
theorem toNat_ofInt_rate {baudRate : Int} (hint : -2 ^ 31 ≤ baudRate ∧ baudRate < 2 ^ 31)
    {rate : Nat} (hrate : rate ∈ rates) :
    rate = (UInt32.ofInt baudRate).toNat ↔ (rate : Int) = baudRate := by
  have hsmall : rate ≤ 230400 := by
    revert rate
    decide
  rw [UInt32.ofInt, UInt32.toNat_ofNat']
  omega

theorem configure_eq_ok {settings : Serial} {t configured : Termios} :
    configure settings t = .ok configured ↔
      ∃ known : Speed, known.rate = (UInt32.ofInt settings.baudRate).toNat ∧
        { setupIo settings t with cOspeed := known, cIspeed := known } = configured := by
  simp only [configure, setBaudRate, bind_eq_ok, speed_eq_ok, Except.ok.injEq]

theorem extended_eq_ok {α : Type} {call : Bytes} {status : Except Bytes α} {a : α} :
    extended call status = .ok a ↔ status = .ok a := by
  cases status <;> simp [extended, Except.mapError]

/-- None of it depends on the attributes. -/
structure Calls.Done (calls : Calls) : Prop where
  openPath : ∃ fileDescriptor, calls.openPath = .ok fileDescriptor
  tcgetattr : calls.tcgetattr = .ok ()
  tcflush : calls.tcflush = .ok ()
  tcsetattr : calls.tcsetattr = .ok ()

theorem connect_eq_ok {calls : Calls} {settings : Serial} {t configured : Termios}
    {opened : Opened} (h : connect calls settings t = .ok (opened, configured)) :
    calls.Done ∧ configure settings t = .ok configured := by
  simp only [connect, bind_eq_ok, extended_eq_ok] at h
  obtain ⟨fileDescriptor, hopen, _, hget, termios, hconfigure, _, hflush, _, hset, h⟩ := h
  cases h
  exact ⟨⟨⟨fileDescriptor, hopen⟩, hget, hflush, hset⟩, hconfigure⟩

theorem connect_of_done {calls : Calls} {settings : Serial} {t configured : Termios}
    (hdone : calls.Done) (h : configure settings t = .ok configured) :
    ∃ opened, connect calls settings t = .ok (opened, configured) := by
  obtain ⟨fileDescriptor, hopen⟩ := hdone.openPath
  refine ⟨⟨fileDescriptor, settings.responseTimeout, settings.lineTimeout⟩, ?_⟩
  simp only [connect, bind_eq_ok, extended_eq_ok]
  exact ⟨_, hopen, _, hdone.tcgetattr, _, h, _, hdone.tcflush, _, hdone.tcsetattr, rfl⟩

end Connection

namespace Opening

open Connection

/-- Some constructor gets to its end. -/
def Succeeds (opening : Opening) : Prop :=
  ∃ t result, connect opening.calls opening.settings t = .ok result

theorem leaves_of_succeeds {opening : Opening} (h : opening.Succeeds) (t : Termios) :
    configure opening.settings t = .ok (opening.leaves t) := by
  obtain ⟨before, ⟨opened, after⟩, hconnect⟩ := h
  obtain ⟨hdone, hconfigure⟩ := connect_eq_ok hconnect
  obtain ⟨known, hknown, -⟩ := configure_eq_ok.mp hconfigure
  have hnow := configure_eq_ok (t := t).mpr ⟨known, hknown, rfl⟩
  obtain ⟨opened, hagain⟩ := connect_of_done hdone hnow
  rw [leaves, hagain]
  exact hnow

theorem leaves_of_not_succeeds {opening : Opening} (h : ¬opening.Succeeds) (t : Termios) :
    opening.leaves t = t := by
  rw [leaves]
  split
  next hconnect => exact absurd ⟨t, _, hconnect⟩ h
  next => rfl

theorem flow_leaves (opening : Opening) (t : Termios) :
    (opening.leaves t).cIflag &&& Termios.ixoff = t.cIflag &&& Termios.ixoff := by
  by_cases h : opening.Succeeds
  case pos =>
    obtain ⟨known, -, hleaves⟩ := configure_eq_ok.mp (leaves_of_succeeds h t)
    rw [← hleaves]
    exact setupIo_flow opening.settings t
  case neg => rw [leaves_of_not_succeeds h]

theorem mark_leaves (opening : Opening) (t : Termios) :
    (opening.leaves t).cCflag &&& Termios.cmspar = t.cCflag &&& Termios.cmspar := by
  by_cases h : opening.Succeeds
  case pos =>
    obtain ⟨known, -, hleaves⟩ := configure_eq_ok.mp (leaves_of_succeeds h t)
    rw [← hleaves]
    exact setupIo_mark opening.settings t
  case neg => rw [leaves_of_not_succeeds h]

/-- A second stop bit stays. -/
theorem stopBits_leaves (opening : Opening) (t : Termios) :
    (opening.leaves t).stopBits = 1 ↔
      t.stopBits = 1 ∧ (opening.Succeeds → opening.settings.stopBitsCount ≠ 2) := by
  by_cases h : opening.Succeeds
  case pos =>
    obtain ⟨known, -, hleaves⟩ := configure_eq_ok.mp (leaves_of_succeeds h t)
    have hstop := setupIo_stopBits opening.settings t
    have hsame : (opening.leaves t).stopBits = (setupIo opening.settings t).stopBits := by
      rw [← hleaves]
      rfl
    rw [hsame, hstop]
    split <;> simp [*]
  case neg => simp [h, leaves_of_not_succeeds h]

end Opening

/-- What no opening touches stays as the port had it at first. -/
theorem untouched_attributesAfter (openings : List Opening) (t : Termios) :
    (attributesAfter openings t).cIflag &&& Termios.ixoff = t.cIflag &&& Termios.ixoff ∧
      (attributesAfter openings t).cCflag &&& Termios.cmspar = t.cCflag &&& Termios.cmspar := by
  induction openings generalizing t with
  | nil => exact ⟨rfl, rfl⟩
  | cons opening openings ih =>
      rw [attributesAfter, List.foldl_cons, ← attributesAfter, (ih _).1, (ih _).2,
        opening.flow_leaves, opening.mark_leaves]
      exact ⟨rfl, rfl⟩

theorem stopBits_attributesAfter (openings : List Opening) (t : Termios) :
    (attributesAfter openings t).stopBits = 1 ↔ t.stopBits = 1 ∧
      ∀ opening ∈ openings, opening.Succeeds → opening.settings.stopBitsCount ≠ 2 := by
  induction openings generalizing t with
  | nil => simp [attributesAfter]
  | cons opening openings ih =>
      rw [attributesAfter, List.foldl_cons, ← attributesAfter, ih, opening.stopBits_leaves,
        List.forall_mem_cons, and_assoc]

namespace Connection

open Termios

theorem configure_raw_iff {settings : Serial} {t configured : Termios}
    (h : configure settings t = .ok configured) :
    configured.Raw ↔ t.cIflag &&& ixoff = 0 := by
  obtain ⟨known, -, rfl⟩ := configure_eq_ok.mp h
  rw [← setupIo_raw_iff settings t]
  constructor
  case mp => exact fun hraw =>
    ⟨hraw.input, hraw.flow, hraw.output, hraw.terminal, hraw.size, hraw.modem, hraw.waits⟩
  case mpr => exact fun hraw =>
    ⟨hraw.input, hraw.flow, hraw.output, hraw.terminal, hraw.size, hraw.modem, hraw.waits⟩

theorem configure_carries_iff {settings : Serial} {t configured : Termios}
    (hvalid : settings.Valid)
    (hint : -2 ^ 31 ≤ settings.baudRate ∧ settings.baudRate < 2 ^ 31)
    (h : configure settings t = .ok configured) :
    configured.Carries settings ↔
      (settings.parity = .none ∨ t.cCflag &&& cmspar = 0) ∧
        (settings.stopBitsCount = 2 ∨ t.stopBits = 1) := by
  obtain ⟨known, hknown, rfl⟩ := configure_eq_ok.mp h
  have hrate := (toNat_ofInt_rate hint known.known).mp hknown
  have hstop := setupIo_stopBits settings t
  rw [← setupIo_parity_iff settings t]
  constructor
  case mp =>
    intro hcarries
    have hbits : (setupIo settings t).stopBits = settings.stopBitsCount := hcarries.stopBits
    rw [hstop] at hbits
    have hcounts := hvalid.stopBits
    refine ⟨hcarries.parity, ?_⟩
    split at hbits <;> omega
  case mpr =>
    rintro ⟨hparity, hbits⟩
    refine ⟨hparity, setupIo_checked settings t, ?_, hrate, hrate⟩
    change (setupIo settings t).stopBits = _
    have hcounts := hvalid.stopBits
    rw [hstop]
    split <;> omega

/-- What it has stored is left as it is the next time. -/
theorem configure_configured {settings : Serial} {t configured : Termios}
    (h : configure settings t = .ok configured) :
    configure settings configured = .ok configured := by
  obtain ⟨known, hknown, rfl⟩ := configure_eq_ok.mp h
  have hagain : setupIo settings { setupIo settings t with cOspeed := known, cIspeed := known } =
      { setupIo settings (setupIo settings t) with cOspeed := known, cIspeed := known } := by
    simp only [setupIo_eq]
  rw [configure_eq_ok]
  exact ⟨known, hknown, by rw [hagain, setupIo_setupIo]⟩

def calls : Calls := ⟨.ok 3, .ok (), .ok (), .ok ()⟩

def fresh : Termios :=
  ⟨0x500, 0x5, 0xcbd, 0x8a3b, .replicate 32 0, ⟨38400, by decide⟩, ⟨38400, by decide⟩⟩

def meter (stopBitsCount : Int) : Serial :=
  ⟨str "/dev/ttyS0", 9600, stopBitsCount, 1000, 100, .even⟩

end Connection

end Rdbus.Communication
