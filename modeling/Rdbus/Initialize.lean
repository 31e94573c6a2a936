import Rdbus.Manager
import Rdbus.Numbers
import Rdbus.Out.Output

/-!
# Setting the program up

From the arguments and the configuration files to the output and the managers.
The directory, the JSON parser and the serial ports are outside: a file comes
with the outcome of parsing it, and `construct` is how the constructor of
`Connection` ends.
-/

namespace Rdbus

open Foundation

namespace Config

inductive Output.Type where
  | stdout
  | tcpIp
  deriving DecidableEq, Repr

structure Output where
  address : Option Address := none
  type : Output.Type
  deriving DecidableEq, Repr

structure OutputJson where
  type : Option Bytes := none
  address : Option AddressJson := none

/-- The type is one of the two behind the first check. -/
def Output.fromJson (j : OutputJson) : Except Throw Output := do
  let type ← required j.type (str "Missing 'type' field in 'output' section!")
  throwIf (type ≠ str "stdout" ∧ type ≠ str "TCP/IP")
    (str "The only allowed output types are 'stdout' and 'TCP/IP'!")
  throwIf (type = str "stdout" ∧ j.address.isSome)
    (str "Multiple output types detected! Do not mix 'address' with stdout 'type'!")
  if type = str "stdout" then .ok { type := .stdout }
  else do
    let address ← required j.address
      (str "Missing 'address' section for 'TCP/IP' output type!")
    let address ← Address.fromJson address
    .ok { address := some address, type := .tcpIp }

end Config

/-- `ipPort.find( ':' )` without a colon is `npos`, and `npos + 1` is zero. -/
def splitAddress (ipPort : Bytes) : Bytes × Bytes :=
  match ipPort.findIdx? (· = 58) with
  | some i => (ipPort.take i, ipPort.drop (i + 1))
  | none => (ipPort, ipPort)

def toOutputConfig (toStdout : Bool) (ipPort : Bytes) : Except Throw Config.Output :=
  if toStdout then Config.Output.fromJson { type := some (str "stdout") }
  else do
    let (ip, port) := splitAddress ipPort
    let port ← stoi port
    Config.Output.fromJson
      { type := some (str "TCP/IP"), address := some { ip := some ip, port := some port } }

/-- An entry of the directory, and the outcome of `json::parse` on it. -/
structure ConfigFile where
  path : Bytes
  good : Bool
  json : Except Throw Config.ConfigJson

def extension : Bytes := str ".rdbus.json"

def ConfigFile.isConfig (file : ConfigFile) : Bool := extension.isSuffixOf file.path

/-- The loop over the directory. -/
def parseFiles : List ConfigFile → Except Throw (List Config.ConfigJson)
  | [] => .ok []
  | it :: rest =>
      if it.isConfig then do
        throwExceptionIf (!it.good) (str "Failed to open config file at " ++ it.path ++ str "!")
        let json ← it.json
        let jsonList ← parseFiles rest
        .ok (json :: jsonList)
      else parseFiles rest

def initializeConfigs (configDir : Bytes) (directory : Except Throw (List ConfigFile)) :
    Except Throw (List Config) := do
  let files ← directory
  let jsonList ← parseFiles files
  throwExceptionIf jsonList.isEmpty
    (str "No '*.rdbus.json' configuration files found in " ++ configDir ++ str "!")
  jsonList.mapM Config.fromJson

/-- Whether the storage has a buffer for the limits. -/
def processorDescriptions (configs : List Config) : Bool :=
  configs.any fun config => config.processors.limits.isSome

def initializeOutput (output : Config.Output) (configs : List Config) :
    Except Throw Out.Output :=
  match output.type, output.address with
  | .tcpIp, some _ => .ok (.http (.initial (processorDescriptions configs)))
  | .tcpIp, none => .error .undefinedBehaviour
  | .stdout, _ => .ok (.pipe [])

/-- The communicators of the serial protocols open their port. -/
def openPort (construct : Config.Serial → Except Throw Unit) (config : Config) :
    Except Throw Unit :=
  if config.protocol = str "nmea" ∨ config.protocol = str "modbus" then
    config.serial.forM construct
  else .ok ()

def initializeManagers (construct : Config.Serial → Except Throw Unit)
    (configs : List Config) : Except Throw (List Manager) :=
  configs.mapM fun config => do
    let manager ← initializeManager config
    openPort construct config
    .ok manager

/-- The first `try` block of `main`, from the options of the command line on. -/
def setup (toStdout : Bool) (ipPort configDir : Bytes)
    (directory : Except Throw (List ConfigFile))
    (construct : Config.Serial → Except Throw Unit) :
    Except Throw (Out.Output × List Manager) := do
  let output ← toOutputConfig toStdout ipPort
  let configs ← initializeConfigs configDir directory
  let output ← initializeOutput output configs
  let managers ← initializeManagers construct configs
  .ok (output, managers)

theorem initializeConfigs_ok {configDir : Bytes} {directory : Except Throw (List ConfigFile)}
    {configs : List Config} (h : initializeConfigs configDir directory = .ok configs) :
    ∃ jsons : List Config.ConfigJson, jsons ≠ [] ∧ jsons.mapM Config.fromJson = .ok configs := by
  obtain ⟨files, -, h⟩ := bind_eq_ok.mp h
  obtain ⟨jsons, -, h⟩ := bind_eq_ok.mp h
  cases jsons with
  | nil => cases h
  | cons json jsons => exact ⟨json :: jsons, by simp, h⟩

theorem initializeManagers_eq_ok_iff {construct : Config.Serial → Except Throw Unit}
    {configs : List Config} {managers : List Manager} :
    initializeManagers construct configs = .ok managers ↔
      configs.mapM initializeManager = .ok managers ∧
        ∀ config ∈ configs, openPort construct config = .ok () := by
  unfold initializeManagers
  induction configs generalizing managers with
  | nil => simp [pure, Except.pure]
  | cons config configs ih =>
      rw [List.mapM_cons, List.mapM_cons, List.forall_mem_cons]
      constructor
      · intro h
        obtain ⟨manager, hmanager, h⟩ := bind_eq_ok.mp h
        obtain ⟨_, hbuilt, hmanager⟩ := bind_eq_ok.mp hmanager
        obtain ⟨_, hopen, hmanager⟩ := bind_eq_ok.mp hmanager
        cases hmanager
        obtain ⟨rest, hrest, h⟩ := bind_eq_ok.mp h
        cases h
        obtain ⟨hothers, hports⟩ := ih.mp hrest
        rw [hbuilt, ok_bind, hothers]
        exact ⟨rfl, hopen, hports⟩
      · rintro ⟨h, hopen, hports⟩
        obtain ⟨manager, hbuilt, h⟩ := bind_eq_ok.mp h
        obtain ⟨rest, hothers, h⟩ := bind_eq_ok.mp h
        cases h
        rw [hbuilt, ok_bind, hopen, ok_bind, ok_bind, ih.mpr ⟨hothers, hports⟩]
        rfl

theorem setup_ok {toStdout : Bool} {ipPort configDir : Bytes}
    {directory : Except Throw (List ConfigFile)}
    {construct : Config.Serial → Except Throw Unit} {output : Out.Output}
    {managers : List Manager}
    (h : setup toStdout ipPort configDir directory construct = .ok (output, managers)) :
    ∃ configs, initializeConfigs configDir directory = .ok configs ∧
      configs.mapM initializeManager = .ok managers ∧
      (∀ config ∈ configs, openPort construct config = .ok ()) ∧
      (output = .pipe [] ∨ output = .http (.initial (processorDescriptions configs))) := by
  obtain ⟨options, -, h⟩ := bind_eq_ok.mp h
  obtain ⟨configs, hconfigs, h⟩ := bind_eq_ok.mp h
  obtain ⟨made, hmade, h⟩ := bind_eq_ok.mp h
  obtain ⟨_, hmanagers, h⟩ := bind_eq_ok.mp h
  cases h
  obtain ⟨hbuilt, hports⟩ := initializeManagers_eq_ok_iff.mp hmanagers
  refine ⟨configs, hconfigs, hbuilt, hports, ?_⟩
  unfold initializeOutput at hmade
  split at hmade <;> cases hmade
  · exact .inr rfl
  · exact .inl rfl

end Rdbus
