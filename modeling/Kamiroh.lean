import Kamiroh.Vocabulary
import Kamiroh.Protocol
import Kamiroh.Run
import Kamiroh.Alternation
import Kamiroh.Conversation
import Kamiroh.Channels
import Kamiroh.Transcripts
import Kamiroh.Ports
import Kamiroh.Inbound
import Kamiroh.Parties
import Kamiroh.Wait
import Kamiroh.Assoc
import Kamiroh.Runtime.Basic
import Kamiroh.Runtime.Steps
import Kamiroh.Runtime.Conversations
import Kamiroh.Memory
import Kamiroh.Runtime.Deadlines
import Kamiroh.Runtime.Failures
import Kamiroh.Runtime.Deaths
import Kamiroh.Runtime.Reports
import Kamiroh.Runtime.Denials
import Kamiroh.Quiescence
import Kamiroh.Kameo.Host
import Kamiroh.Kameo.Refinement
import Kamiroh.Phone.Basic
import Kamiroh.Phone.Waits
import Kamiroh.Phone.Choreography
import Kamiroh.Mailboxes
import Kamiroh.Phone.FanOut
import Kamiroh.Runtime.Admissions
import Kamiroh.Wire.Basic
import Kamiroh.Wire.Steps
import Kamiroh.Wire.Conservation
import Kamiroh.Wire.Handles
import Kamiroh.Wire.Receipts
import Kamiroh.Wire.Barrier
import Kamiroh.Phone.Line
import Kamiroh.Phone.Receipts
import Kamiroh.Kameo.Mailbox
import Kamiroh.Iroh.Reader
import Kamiroh.Runtime.Revocations
import Kamiroh.Runtime.Shadows
import Kamiroh.Runtime.Isolation
import Kamiroh.Runtime.Polls
import Kamiroh.Runtime.Timeouts
import Kamiroh.Runtime.Progress
import Kamiroh.Race
import Kamiroh.Runtime.Harness
import Kamiroh.Iroh.Connected
import Kamiroh.Phone.Cancelled
import Kamiroh.Arming
import Kamiroh.Wakeups
import Kamiroh.Iroh.Sender
import Kamiroh.Kameo.Stops
import Kamiroh.Kameo.Serial
import Kamiroh.Kameo.Verdicts
import Kamiroh.Kameo.Tasks
import Kamiroh.Kameo.Flows
import Kamiroh.Kameo.Feeds
import Kamiroh.Runtime.Overheard
import Kamiroh.Phone.Agreement
import Kamiroh.Stock
import Kamiroh.Iroh.Network
import Kamiroh.Iroh.Wiring
import Kamiroh.Iroh.Provenance
import Kamiroh.Iroh.Arrivals
import Kamiroh.Phone.Endings
