import Rdbus.Foundation.Outcome
import Rdbus.Out.Http

/-!
# Where managers send to

The HTTP server stores what it is sent and writes it when a client asks.  The
pipe writes at once, so that a text `json::dump` cannot write is an exception of
`send`.
-/

namespace Rdbus.Out

/-- One printed array. -/
inductive Document where
  | readings (list : List Rdbus.Data)
  | limits (list : List Processing.Limits.Data)
  deriving DecidableEq

def Document.texts : Document → List Bytes
  | .readings list => list.flatMap Rdbus.Data.texts
  | .limits list => list.flatMap Processing.Limits.Data.texts

/-- `json::dump` throws at none of the texts. -/
def Document.Written (dumpError : Bytes → Option Bytes) (document : Document) : Prop :=
  document.texts.findSome? dumpError = none

instance Document.decidableWritten (dumpError : Bytes → Option Bytes) (document : Document) :
    Decidable (document.Written dumpError) :=
  inferInstanceAs (Decidable (_ = none))

namespace Pipe

/-- `std::cout << j.dump( indent ) + '\n'`. -/
def print (dumpError : Bytes → Option Bytes) (printed : List Document) (document : Document) :
    Except Throw (List Document) :=
  match document.texts.findSome? dumpError with
  | none => .ok (printed ++ [document])
  | some what => .error (.std what)

/-- `Pipe::send` of readings. -/
def send (dumpError : Bytes → Option Bytes) (printed : List Document)
    (list : List Rdbus.Data) : Except Throw (List Document) :=
  print dumpError printed (.readings list)

/-- `Pipe::send` of processor output, which prints no empty array. -/
def sendLimits (dumpError : Bytes → Option Bytes) (printed : List Document)
    (list : List Processing.Limits.Data) : Except Throw (List Document) :=
  if list.isEmpty then .ok printed else print dumpError printed (.limits list)

theorem print_eq_ok {dumpError : Bytes → Option Bytes} {printed next : List Document}
    {document : Document} : print dumpError printed document = .ok next ↔
      document.Written dumpError ∧ next = printed ++ [document] := by
  rw [print, Document.Written]
  cases document.texts.findSome? dumpError with
  | none => simp [eq_comm]
  | some what => simp

end Pipe

/-- `out::Output` with its two implementations; the pipe is what it has printed. -/
inductive Output where
  | http (server : Http)
  | pipe (printed : List Document)

namespace Output

def send (sizeofData : Nat) (dumpError : Bytes → Option Bytes) (now : Timestamp)
    (list : List Rdbus.Data) : Output → Except Throw Output
  | .http server => .ok (.http (server.send sizeofData now list))
  | .pipe printed => (Pipe.send dumpError printed list).map .pipe

def sendLimits (sizeofData : Nat) (dumpError : Bytes → Option Bytes) (now : Timestamp)
    (list : List Processing.Limits.Data) : Output → Except Throw Output
  | .http server => (server.sendLimits sizeofData now list).map .http
  | .pipe printed => (Pipe.sendLimits dumpError printed list).map .pipe

/-- The output of each processor in turn. -/
def sendOutputs (sizeofData : Nat) (dumpError : Bytes → Option Bytes) (now : Timestamp)
    (outputs : List (List Processing.Limits.Data)) (output : Output) : Except Throw Output :=
  outputs.foldlM (fun output list => output.sendLimits sizeofData dumpError now list) output

/-- What the pipe prints for the readings of a run. -/
def readingsDocuments (list : List Rdbus.Data) : List Document :=
  if list.isEmpty then [] else [.readings list]

/-- What the pipe prints for the outputs of the processors. -/
def limitsDocuments (outputs : List (List Processing.Limits.Data)) : List Document :=
  (outputs.filter fun list => !list.isEmpty).map .limits

section

variable {sizeofData : Nat} {dumpError : Bytes → Option Bytes} {now : Timestamp}

theorem sendLimits_pipe {list : List Processing.Limits.Data} {printed : List Document}
    {output : Output} : sendLimits sizeofData dumpError now list (.pipe printed) = .ok output ↔
      (∀ document ∈ limitsDocuments [list], document.Written dumpError) ∧
      output = .pipe (printed ++ limitsDocuments [list]) := by
  unfold sendLimits Pipe.sendLimits limitsDocuments
  cases hempty : list.isEmpty with
  | true => simp [hempty, Except.map, eq_comm]
  | false =>
      dsimp only
      rw [if_neg (by simp)]
      cases hprint : Pipe.print dumpError printed (.limits list) with
      | error e =>
          have hnot : ¬ (Document.limits list).Written dumpError := by
            intro hwritten
            cases hprint.symm.trans (Pipe.print_eq_ok.mpr ⟨hwritten, rfl⟩)
          simp [hempty, Except.map, hnot]
      | ok next =>
          obtain ⟨hwritten, rfl⟩ := Pipe.print_eq_ok.mp hprint
          simp [hempty, Except.map, hwritten, eq_comm]

theorem sendOutputs_pipe {outputs : List (List Processing.Limits.Data)}
    {printed : List Document} {output : Output} :
    sendOutputs sizeofData dumpError now outputs (.pipe printed) = .ok output ↔
      (∀ document ∈ limitsDocuments outputs, document.Written dumpError) ∧
      output = .pipe (printed ++ limitsDocuments outputs) := by
  induction outputs generalizing printed with
  | nil => simp [sendOutputs, limitsDocuments, pure, Except.pure, eq_comm]
  | cons list outputs ih =>
      have hsplit : limitsDocuments (list :: outputs) =
          limitsDocuments [list] ++ limitsDocuments outputs := by
        simp [limitsDocuments, ← List.map_append, ← List.filter_append]
      unfold sendOutputs at ih ⊢
      rw [List.foldlM_cons, Foundation.bind_eq_ok, hsplit, List.forall_mem_append]
      constructor
      · rintro ⟨middle, hfirst, hrest⟩
        obtain ⟨htexts, rfl⟩ := sendLimits_pipe.mp hfirst
        obtain ⟨hothers, rfl⟩ := ih.mp hrest
        exact ⟨⟨htexts, hothers⟩, by rw [List.append_assoc]⟩
      · rintro ⟨⟨htexts, hothers⟩, rfl⟩
        refine ⟨_, sendLimits_pipe.mpr ⟨htexts, rfl⟩, ih.mpr ⟨hothers, ?_⟩⟩
        rw [List.append_assoc]

/-- The server takes everything as long as it has a buffer for the limits. -/
theorem sendOutputs_http {outputs : List (List Processing.Limits.Data)} {server : Http}
    (h : outputs = [] ∨ server.limitsStorage.isSome) :
    ∃ server' : Http, sendOutputs sizeofData dumpError now outputs (.http server) =
      .ok (.http server') ∧
      server'.limitsStorage.isSome = server.limitsStorage.isSome := by
  induction outputs generalizing server with
  | nil => exact ⟨server, rfl, rfl⟩
  | cons list outputs ih =>
      obtain ⟨buffer, hbuffer⟩ := Option.isSome_iff_exists.mp (h.resolve_left (by simp))
      have hsend : sendLimits sizeofData dumpError now list (.http server) = .ok (.http
          { server with limitsStorage := some (buffer.add Processing.Limits.Data.deviceName
              sizeofData now list) }) := by
        simp [sendLimits, Http.sendLimits, hbuffer, Except.map]
      obtain ⟨server', hrest, hsome⟩ := ih (.inr (by rfl) : _ ∨ (({ server with
        limitsStorage := some (buffer.add Processing.Limits.Data.deviceName sizeofData now
          list) } : Http).limitsStorage.isSome = true))
      refine ⟨server', ?_, by rw [hsome, hbuffer]; rfl⟩
      unfold sendOutputs at hrest ⊢
      rw [List.foldlM_cons, hsend]
      exact hrest

end

end Output

end Rdbus.Out
