import Parley.Gateway.Connection
import Parley.Gateway.Routes
import Parley.Main
import Parley.Proofs.Agent.Account
import Parley.Proofs.Agent.Blocks
import Parley.Proofs.Agent.Desk
import Parley.Proofs.Agent.Ended
import Parley.Proofs.Agent.Heeding
import Parley.Proofs.Agent.Pipe
import Parley.Proofs.Gateway.Broadcast
import Parley.Proofs.Gateway.FrontEnds
import Parley.Proofs.Model.Calls
import Parley.Proofs.Model.Streamed
import Parley.Proofs.Session.Addressing
import Parley.Proofs.Session.Calls
import Parley.Proofs.Session.Chronology
import Parley.Proofs.Session.Deleting
import Parley.Proofs.Session.Drafts
import Parley.Proofs.Session.Durable
import Parley.Proofs.Session.Generating
import Parley.Proofs.Session.Listing
import Parley.Proofs.Session.Naming
import Parley.Proofs.Session.Reopening
import Parley.Proofs.Session.Torn
import Parley.Proofs.Session.Undisturbed
import Parley.Proofs.Session.Undo
import Parley.Proofs.Session.Writers
import Parley.Proofs.Tool.Attachments
import Parley.Proofs.Tool.Dispatch
import Parley.Proofs.Tool.OneLine
import Parley.Proofs.Tool.Schema
import Parley.Tool.Rehearsed
