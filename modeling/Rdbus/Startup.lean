import Rdbus.Initialize

/-!
# Starting

With which arguments, files and ports the program sets itself up.  One file that
is not accepted or one port that does not open is the end of all of them.
-/

namespace Rdbus

open Foundation

/-! ## The address to listen at -/

/-- The number behind the first colon; without a colon all of the text is both. -/
inductive Listens : Bytes → Config.Address → Prop where
  | colon {ip rest : Bytes} {port : Int} (hip : ip ≠ []) (hcolon : 58 ∉ ip)
      (hport : Begins (cString rest) port) (hrange : -2 ^ 31 ≤ port ∧ port < 2 ^ 31) :
      Listens (ip ++ 58 :: rest) ⟨ip, port⟩
  | whole {text : Bytes} {port : Int} (hcolon : 58 ∉ text)
      (hport : Begins (cString text) port) (hrange : -2 ^ 31 ≤ port ∧ port < 2 ^ 31) :
      Listens text ⟨text, port⟩

theorem Begins.ne_nil {text : Bytes} {number : Int} (h : Begins text number) : text ≠ [] := by
  rintro rfl
  obtain ⟨blanks, numeral, rest, heq, -, hspells, -⟩ := h
  have hnumeral : numeral = [] :=
    (List.append_eq_nil_iff.mp (List.append_eq_nil_iff.mp heq.symm).2).1
  subst hnumeral
  cases hspells with
  | plain h => exact h.nonempty rfl

theorem splitAddress_colon {ip rest : Bytes} (h : 58 ∉ ip) :
    splitAddress (ip ++ 58 :: rest) = (ip, rest) := by
  have hfind : (ip ++ 58 :: rest).findIdx? (· = 58) = some ip.length := by
    have hnone : ip.findIdx? (· = 58) = none := by
      rw [List.findIdx?_eq_none_iff]
      exact fun c hc => decide_eq_false fun heq => h (heq ▸ hc)
    simp [List.findIdx?_append, hnone, List.findIdx?_cons]
  rw [splitAddress, hfind]
  simp

theorem splitAddress_whole {text : Bytes} (h : 58 ∉ text) : splitAddress text = (text, text) := by
  have hnone : text.findIdx? (· = 58) = none := by
    rw [List.findIdx?_eq_none_iff]
    exact fun c hc => decide_eq_false fun heq => h (heq ▸ hc)
  rw [splitAddress, hnone]

theorem listens_iff {text : Bytes} {address : Config.Address} :
    Listens text address ↔ ∃ rest, splitAddress text = (address.ip, rest) ∧ address.ip ≠ [] ∧
      Begins (cString rest) address.port ∧ -2 ^ 31 ≤ address.port ∧ address.port < 2 ^ 31 := by
  obtain ⟨ip, port⟩ := address
  constructor
  · intro h
    cases h with
    | colon hip hcolon hport hrange => exact ⟨_, splitAddress_colon hcolon, hip, hport, hrange⟩
    | whole hcolon hport hrange =>
        refine ⟨_, splitAddress_whole hcolon, ?_, hport, hrange⟩
        rintro rfl
        exact hport.ne_nil rfl
  · rintro ⟨rest, hsplit, hip, hport, hrange⟩
    by_cases hcolon : 58 ∈ text
    case pos =>
      obtain ⟨before, after, rfl, hbefore⟩ := List.eq_append_cons_of_mem hcolon
      rw [splitAddress_colon hbefore, Prod.mk.injEq] at hsplit
      obtain ⟨rfl, rfl⟩ := hsplit
      exact .colon hip hbefore hport hrange
    case neg =>
      rw [splitAddress_whole hcolon, Prod.mk.injEq] at hsplit
      obtain ⟨rfl, rfl⟩ := hsplit
      exact .whole hcolon hport hrange

theorem fromJson_address {ip : Bytes} {port : Int} {output : Config.Output} :
    Config.Output.fromJson { type := some (str "TCP/IP"),
                             address := some { ip := some ip, port := some port } } = .ok output ↔
      ip ≠ [] ∧ { address := some ⟨ip, port⟩, type := .tcpIp } = output := by
  have htype : str "TCP/IP" ≠ str "stdout" := by decide
  simp only [Config.Output.fromJson, Config.required, ok_bind, htype, if_false,
    throwIf_bind_eq_ok, Config.Address.fromJson, bind_assoc]
  simp

theorem toOutputConfig_eq_ok {ipPort : Bytes} {output : Config.Output} :
    toOutputConfig false ipPort = .ok output ↔
      ∃ address, Listens ipPort address ∧ { address := some address, type := .tcpIp } = output := by
  simp only [listens_iff]
  cases hsplit : splitAddress ipPort with
  | mk ip rest =>
      simp only [toOutputConfig, hsplit, Bool.false_eq_true, if_false, bind_eq_ok, stoi_eq_ok,
        fromJson_address, Prod.mk.injEq]
      constructor
      · rintro ⟨port, ⟨hport, hrange⟩, hip, rfl⟩
        exact ⟨⟨ip, port⟩, ⟨rest, ⟨rfl, rfl⟩, hip, hport, hrange⟩, rfl⟩
      · rintro ⟨⟨_, port⟩, ⟨_, ⟨rfl, rfl⟩, hip, hport, hrange⟩, rfl⟩
        exact ⟨port, ⟨hport, hrange⟩, hip, rfl⟩

/-! ## Files and managers -/

theorem parseFiles_eq_ok {files : List ConfigFile} {jsons : List Config.ConfigJson} :
    parseFiles files = .ok jsons ↔ List.Forall₂ (fun file json => file.good = true ∧
      file.json = .ok json) (files.filter ConfigFile.isConfig) jsons := by
  induction files generalizing jsons with
  | nil =>
      rw [List.filter_nil, List.forall₂_nil_left_iff]
      exact ⟨fun h => (Except.ok.inj h).symm, fun h => congrArg Except.ok h.symm⟩
  | cons file files ih =>
      rw [parseFiles]
      by_cases hconfig : file.isConfig
      case pos =>
        rw [if_pos hconfig, List.filter_cons_of_pos hconfig, List.forall₂_cons_left_iff]
        have hgood : throwExceptionIf (!file.good) (str "Failed to open config file at " ++
            file.path ++ str "!") = .ok () ↔ file.good = true := by
          cases file.good <;> simp [throwExceptionIf]
        simp only [bind_eq_ok, Unique.exists_iff]
        change throwExceptionIf _ _ = .ok () ∧ _ ↔ _
        rw [hgood]
        constructor
        · rintro ⟨hgood, json, hjson, rest, hrest, h⟩
          cases h
          exact ⟨json, rest, ⟨hgood, hjson⟩, ih.mp hrest, rfl⟩
        · rintro ⟨json, rest, ⟨hgood, hjson⟩, hrest, rfl⟩
          exact ⟨hgood, json, hjson, rest, ih.mpr hrest, rfl⟩
      case neg => rw [if_neg hconfig, List.filter_cons_of_neg hconfig, ih]

/-- A configuration file that can be read and is accepted. -/
def ConfigFile.Gives (file : ConfigFile) (config : Config) : Prop :=
  ∃ json, (file.good = true ∧ file.json = .ok json) ∧ Config.fromJson json = .ok config

theorem initializeConfigs_eq_ok {configDir : Bytes}
    {directory : Except Throw (List ConfigFile)} {configs : List Config} :
    initializeConfigs configDir directory = .ok configs ↔ ∃ files, directory = .ok files ∧
      files.filter ConfigFile.isConfig ≠ [] ∧
      List.Forall₂ ConfigFile.Gives (files.filter ConfigFile.isConfig) configs := by
  have hsome : ∀ (jsons : List Config.ConfigJson) (message : Bytes),
      throwExceptionIf jsons.isEmpty message = .ok () ↔ jsons ≠ [] := by
    intro jsons message
    cases jsons <;> simp [throwExceptionIf]
  simp only [initializeConfigs, bind_eq_ok, parseFiles_eq_ok, mapM_eq_ok_iff, Unique.exists_iff]
  refine exists_congr fun files => and_congr_right fun _ => ?_
  refine Iff.trans ?_ (and_congr_right fun _ => exists_forall₂_iff)
  rw [← exists_and_left]
  refine exists_congr fun jsons => ?_
  change _ ∧ throwExceptionIf _ _ = .ok () ∧ _ ↔ _
  rw [hsome]
  constructor
  · rintro ⟨hparsed, hne, hread⟩
    refine ⟨?_, hparsed, hread⟩
    rintro hnone
    rw [hnone, List.forall₂_nil_left_iff] at hparsed
    exact hne hparsed
  · rintro ⟨hne, hparsed, hread⟩
    refine ⟨hparsed, ?_, hread⟩
    rintro rfl
    exact hne (List.forall₂_nil_right_iff.mp hparsed)

/-- The port that the protocol of the file needs is there. -/
def Config.Connected (config : Config) : Prop :=
  if config.protocol = str "wago" then config.address.isSome else config.serial.isSome

/-- `initializeManager` of a file with the port it needs. -/
def Config.manager (config : Config) : Manager where
  tasks :=
    if config.protocol = str "nmea" then [.listen config.nmea]
    else if config.protocol = str "modbus" then
      config.modbus.map fun slave => .pollSlave slave 0
    else config.wago.map fun module => .pollModule module 0
  processors := initializeProcessors config

theorem initializeManager_eq_ok {j : Config.ConfigJson} {config : Config}
    (hconfig : Config.fromJson j = .ok config) {manager : Manager} :
    initializeManager config = .ok manager ↔ config.Connected ∧ manager = config.manager := by
  have hport : ∀ (port : Bool) (message : Bytes) (tasks : List Task),
      ((do throwExceptionIf port message; .ok tasks : Except Throw (List Task)) >>= fun tasks =>
        .ok { tasks, processors := initializeProcessors config }) = .ok manager ↔
      port = false ∧ manager = { tasks, processors := initializeProcessors config } := by
    intro port message tasks
    cases port <;> simp [throwExceptionIf, eq_comm]
  have hprotocol : config.protocol = str "modbus" ∨ config.protocol = str "nmea" ∨
      config.protocol = str "wago" := by
    obtain ⟨h, -⟩ | ⟨h, -⟩ | ⟨h, -⟩ := Config.fromJson_ok hconfig
    · exact .inl h
    · exact .inr (.inl h)
    · exact .inr (.inr h)
  have hmodbus : str "modbus" ≠ str "nmea" ∧ str "modbus" ≠ str "wago" := by decide
  have hnmea : str "nmea" ≠ str "wago" := by decide
  have hwago : str "wago" ≠ str "nmea" ∧ str "wago" ≠ str "modbus" := by decide
  rcases hprotocol with h | h | h <;>
    simp only [initializeManager, initializeTasks, Config.Connected, Config.manager, h, hmodbus,
      hnmea, hwago, if_true, if_false, hport, Option.isNone_eq_false_iff]

theorem initializeOutput_eq_ok {toStdout : Bool} {ipPort : Bytes} {configs : List Config}
    {output : Out.Output} :
    (∃ options, toOutputConfig toStdout ipPort = .ok options ∧
      initializeOutput options configs = .ok output) ↔
      if toStdout then output = .pipe []
      else (∃ address, Listens ipPort address) ∧
        output = .http (.initial (processorDescriptions configs)) := by
  cases toStdout with
  | true =>
      constructor
      · rintro ⟨_, hoptions, h⟩
        cases hoptions
        exact (Except.ok.inj h).symm
      · rintro rfl
        exact ⟨_, rfl, rfl⟩
  | false =>
      simp only [toOutputConfig_eq_ok]
      constructor
      · rintro ⟨_, ⟨address, hlistens, rfl⟩, h⟩
        cases h
        exact ⟨⟨address, hlistens⟩, rfl⟩
      · rintro ⟨⟨address, hlistens⟩, rfl⟩
        exact ⟨_, ⟨address, hlistens, rfl⟩, rfl⟩

theorem mapM_initializeManager_eq_ok {configs : List Config} {managers : List Manager}
    (hread : ∀ config ∈ configs, ∃ json, Config.fromJson json = .ok config) :
    configs.mapM initializeManager = .ok managers ↔
      (∀ config ∈ configs, config.Connected) ∧ managers = configs.map Config.manager := by
  rw [mapM_eq_ok_iff]
  induction configs generalizing managers with
  | nil => simp [List.forall₂_nil_left_iff]
  | cons config configs ih =>
      rw [List.forall_mem_cons] at hread
      obtain ⟨⟨json, hjson⟩, hread⟩ := hread
      rw [List.forall₂_cons_left_iff, List.forall_mem_cons, List.map_cons]
      constructor
      · rintro ⟨manager, rest, hmanager, hrest, rfl⟩
        obtain ⟨hconnected, rfl⟩ := (initializeManager_eq_ok hjson).mp hmanager
        obtain ⟨hothers, rfl⟩ := (ih hread).mp hrest
        exact ⟨⟨hconnected, hothers⟩, rfl⟩
      · rintro ⟨⟨hconnected, hothers⟩, rfl⟩
        exact ⟨_, _, (initializeManager_eq_ok hjson).mpr ⟨hconnected, rfl⟩,
          (ih hread).mpr ⟨hothers, rfl⟩, rfl⟩

theorem processorDescriptions_eq (configs : List Config) :
    processorDescriptions configs =
      configs.any fun config => !config.manager.processors.isEmpty := by
  refine congrArg configs.any (funext fun config => ?_)
  rw [Config.manager, initializeProcessors]
  cases config.processors.limits <;> rfl

/-- What the arguments, the directory and the ports have to be like. -/
structure Starts (toStdout : Bool) (ipPort : Bytes) (files : List ConfigFile)
    (construct : Config.Serial → Except Throw Unit) (configs : List Config)
    (output : Out.Output) : Prop where
  output : if toStdout then output = .pipe []
    else (∃ address, Listens ipPort address) ∧
      output = .http (.initial (configs.any fun config => !config.manager.processors.isEmpty))
  nonempty : files.filter ConfigFile.isConfig ≠ []
  given : List.Forall₂ ConfigFile.Gives (files.filter ConfigFile.isConfig) configs
  connected : ∀ config ∈ configs, config.Connected
  opened : ∀ config ∈ configs, openPort construct config = .ok ()

theorem exists_of_gives {files : List ConfigFile} {configs : List Config}
    (h : List.Forall₂ ConfigFile.Gives files configs) {config : Config}
    (hmem : config ∈ configs) : ∃ json, Config.fromJson json = .ok config := by
  induction h with
  | nil => cases hmem
  | cons hgives _ ih =>
      rcases List.mem_cons.mp hmem with rfl | hmem
      · exact hgives.imp fun _ h => h.2
      · exact ih hmem

/--
The program sets itself up exactly when its arguments can be understood, there
are configuration files, each of them is accepted and names the kind of port its
protocol needs, and every port opens.  Each file then has its manager, in the
order of the files, and a server has a buffer for the limits if a manager sends
some.
-/
theorem starts_iff {toStdout : Bool} {ipPort configDir : Bytes}
    {directory : Except Throw (List ConfigFile)}
    {construct : Config.Serial → Except Throw Unit} {output : Out.Output}
    {managers : List Manager} :
    setup toStdout ipPort configDir directory construct = .ok (output, managers) ↔
      ∃ files configs, directory = .ok files ∧
        Starts toStdout ipPort files construct configs output ∧
        managers = configs.map Config.manager := by
  constructor
  · intro h
    obtain ⟨options, hoptions, h⟩ := bind_eq_ok.mp h
    obtain ⟨configs, hconfigs, h⟩ := bind_eq_ok.mp h
    obtain ⟨made, hmade, h⟩ := bind_eq_ok.mp h
    obtain ⟨_, hmanagers, h⟩ := bind_eq_ok.mp h
    cases h
    obtain ⟨files, hdirectory, hnonempty, hgiven⟩ := initializeConfigs_eq_ok.mp hconfigs
    obtain ⟨hbuilt, hopened⟩ := initializeManagers_eq_ok_iff.mp hmanagers
    obtain ⟨hconnected, hmapped⟩ :=
      (mapM_initializeManager_eq_ok fun _ => exists_of_gives hgiven).mp hbuilt
    refine ⟨files, configs, hdirectory, ⟨?_, hnonempty, hgiven, hconnected, hopened⟩, hmapped⟩
    rw [← processorDescriptions_eq]
    exact initializeOutput_eq_ok.mp ⟨options, hoptions, hmade⟩
  · rintro ⟨files, configs, hdirectory, ⟨houtput, hnonempty, hgiven, hconnected, hopened⟩, rfl⟩
    rw [← processorDescriptions_eq] at houtput
    obtain ⟨options, hoptions, hmade⟩ := initializeOutput_eq_ok.mpr houtput
    have hconfigs : initializeConfigs configDir directory = .ok configs :=
      initializeConfigs_eq_ok.mpr ⟨files, hdirectory, hnonempty, hgiven⟩
    have hbuilt :=
      (mapM_initializeManager_eq_ok fun _ => exists_of_gives hgiven).mpr ⟨hconnected, rfl⟩
    rw [setup, hoptions, ok_bind, hconfigs, ok_bind, hmade, ok_bind,
      initializeManagers_eq_ok_iff.mpr ⟨hbuilt, hopened⟩, ok_bind]

end Rdbus
