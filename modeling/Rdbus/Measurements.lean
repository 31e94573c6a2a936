import Rdbus.Communication.Modbus.DataOrder
import Rdbus.Communication.Modbus.MergedReads
import Rdbus.Out.Documents

/-!
# From the registers to the client

A device that stores its measurements as the documentation of the data order
says, polled by the planned requests: what a client reads in the document are
these measurements.
-/

namespace Rdbus

open Foundation
open Config.Modbus
open Communication.Modbus

/-- Every register of the kind holds its measurement in the documented order. -/
structure Stores (memory : Memory) (code : MBFunctionCode) (registers : List Register)
    (measured : Register → Variant) : Prop where
  type : ∀ register ∈ registers, (measured register).type = register.type
  words : ∀ register ∈ registers,
    readRange (memory code) register.address register.words =
      documentedWords register (measured register)

/-- One kind of the registers, by ascending addresses. -/
def listed (measured : Register → Variant) (registers : List Register) :
    List (Bytes × Option Variant) :=
  (sortByKey Register.address registers).map fun register =>
    (register.name, some (measured register))

theorem Stores.reading {memory : Memory} {code : MBFunctionCode} {registers : List Register}
    {measured : Register → Variant} (h : Stores memory code registers measured)
    (hkind : ConsistentKind registers)
    (hself : ∀ register ∈ registers, SelfInverse register.byteOrder) :
    (sortByKey Register.address registers).map (reading memory code) =
      listed measured registers := by
  apply List.map_congr_left
  intro register hmem
  have hmem := mem_sortByKey.mp hmem
  have hordered := hkind.ordered register hmem
  have hkept := (keptByOrder_all_iff_selfInverse hordered).mpr (hself register hmem) _
    (h.type register hmem)
  have hvalue := (decodeValue_documentedWords_iff hordered (h.type register hmem)).mpr hkept
  rw [Communication.Modbus.reading, h.words register hmem, hvalue]

theorem request_measured {slave : Slave} {memory : Memory}
    {holding input : Register → Variant}
    (houtputs : ConsistentKind slave.outputRegisters)
    (hinputs : ConsistentKind slave.inputRegisters)
    (hruns : RunsWithin 65535 slave.outputRegisters)
    (hruns' : RunsWithin 65535 slave.inputRegisters)
    (hself : ∀ register ∈ slave.outputRegisters ++ slave.inputRegisters,
      SelfInverse register.byteOrder)
    (hholding : Stores memory .readAnalogOutputHoldingRegisters slave.outputRegisters holding)
    (hinput : Stores memory .readAnalogInputRegisters slave.inputRegisters input)
    (pastEnd : Int) (now : Nat → Timestamp) :
    ∃ fields, request (.ok pastEnd) (device memory) now slave =
        .ok { deviceName := slave.name, fields } ∧
      fields.map nameAndValue =
        listed holding slave.outputRegisters ++ listed input slave.inputRegisters := by
  obtain ⟨fields, hrequest, hvalues⟩ :=
    request_readings houtputs hinputs hruns hruns' memory pastEnd now
  refine ⟨fields, hrequest, ?_⟩
  rw [hvalues, readings, hholding.reading houtputs fun register hmem =>
      hself register (List.mem_append_left _ hmem),
    hinput.reading hinputs fun register hmem => hself register (List.mem_append_right _ hmem)]

/-- What is to be read under the names of the registers. -/
def shownAs (entry : Bytes × Option Variant) : Bytes × Shown.Value :=
  (entry.1, Variant.shown entry.2)

def torqueMemory : Memory := fun _ address =>
  if address = 130 then 0x1388
  else if address = 132 then 0x05dc
  else if address = 140 then 0x42c8
  else 0

def torqueMeasured (register : Register) : Variant :=
  if register = torque then .uint32 5000
  else if register = shaftSpeed then .uint16 1500
  else .float 0x42c80000

end Rdbus
