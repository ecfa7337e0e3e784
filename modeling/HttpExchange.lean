import HttpExchange.Broadcast
import HttpExchange.Errand
import HttpExchange.Main
import HttpExchange.Session
import HttpExchange.Shared
import HttpExchange.Proofs.Registry
import HttpExchange.Proofs.Response
import HttpExchange.Proofs.Balance
import HttpExchange.Proofs.Reply
import HttpExchange.Proofs.Step
import HttpExchange.Proofs.Sound
import HttpExchange.Proofs.Run
import HttpExchange.Proofs.Course
import HttpExchange.Proofs.Moves
import HttpExchange.Proofs.Ending
import HttpExchange.Proofs.History
import HttpExchange.Proofs.Override
import HttpExchange.Proofs.Exchange
import HttpExchange.Proofs.Transparency
import HttpExchange.Proofs.Dispatch
import HttpExchange.Proofs.Incarnation
import HttpExchange.Proofs.Draining
import HttpExchange.Proofs.Conservation
import HttpExchange.Proofs.Interleaving
import HttpExchange.Proofs.LiveHandles
import HttpExchange.Proofs.Lifecycle
import HttpExchange.Proofs.Outbound
import HttpExchange.Proofs.Delivery
import HttpExchange.Proofs.Errands
import HttpExchange.Proofs.Shutdown
import HttpExchange.Proofs.Isolation
import HttpExchange.Proofs.Accounting
import HttpExchange.Proofs.Listening
import HttpExchange.Proofs.Echo
import HttpExchange.Proofs.Pacing
import HttpExchange.Proofs.Serving
import HttpExchange.Proofs.CommandLine
import HttpExchange.Proofs.Marked
import HttpExchange.Proofs.Credit
import HttpExchange.Proofs.Silence
import HttpExchange.Proofs.Crossing
import HttpExchange.Proofs.Hysteresis
import HttpExchange.Proofs.Rewriting
import HttpExchange.Proofs.Stranding
import HttpExchange.Proofs.Resets
import HttpExchange.Proofs.Withholding
import HttpExchange.Proofs.Multimap
import HttpExchange.Proofs.Answering
import HttpExchange.Proofs.Startup
import HttpExchange.Proofs.Stays
import HttpExchange.Proofs.Numerals
