import CppAlls.Apps.EchoSession
import CppAlls.Lib.Sessions

namespace CppAlls
set_option autoImplicit true

open LittleEndian Interaction Failing Relation ConnM EchoConnectionProcessorString Sessions

/-- A client with its byte order and its strings, at the start of its session. -/
def echoSession (client : ByteOrder × List Bytes) :
    Prog (Connection × SocketCall (Bytes × Bytes)) (fun o => SocketCall.Answer o.2)
      (Except Exn (List Bytes) × Connection) × Served Callback :=
  ((echoClient client.1 tcpConnectionRaw client.2).on {}, { connection := started })

/-- Any number of clients of one echoing server, each on a connection of its own: every interleaving
of their calls, of the streams and of the handlers of the server is finite, and in each state of it
each session has ended with all strings of its client, or goes on with all strings so far. -/
theorem concurrent_echo (o : ByteOrder) (clients : List (ByteOrder × List Bytes))
    (hfit : ∀ client ∈ clients, ∀ s ∈ client.2, s.length + 4 < 2 ^ 32) :
    Acc (fun ys xs => OneMoves (Prog.Step (echoWorld o)) xs ys) (clients.map echoSession) ∧
      ∀ ws, ReflTransGen (OneMoves (Prog.Step (echoWorld o))) (clients.map echoSession) ws →
        List.Forall₂ (fun client w =>
          OnItsWay (echoWorld o) Echoed (fun r _ => r.1 = .ok client.2) w) clients ws := by
  apply succeed_sideBySide
  intro client hc
  exact Prog.Wp.succeeds (echoWorld_terminates o) (echoClient_round (fun _ _ hl he => ⟨hl, he⟩)
    (hfit client hc) rfl rfl (fun _ => .header started_awaiting rfl rfl rfl))

def twoClients : List (ByteOrder × List Bytes) :=
  [(.little, [[104, 105], []]), (.big, [[104, 105]])]

theorem two_clients_echoed :
    Acc (fun ys xs => OneMoves (Prog.Step (echoWorld .big)) xs ys) (twoClients.map echoSession) ∧
      ∀ ws, ReflTransGen (OneMoves (Prog.Step (echoWorld .big))) (twoClients.map echoSession) ws →
        List.Forall₂ (fun client w =>
          OnItsWay (echoWorld .big) Echoed (fun r _ => r.1 = .ok client.2) w) twoClients ws :=
  concurrent_echo .big twoClients (by decide)

end CppAlls
