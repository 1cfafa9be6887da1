import PBus.Foundation.Transition
import PBus.Foundation.History
import PBus.Foundation.Delimited
import PBus.Foundation.Flat
import PBus.Foundation.Splitting
import PBus.Foundation.Paths
import PBus.Foundation.LALR.Table
import PBus.Foundation.LALR.Driver
import PBus.Foundation.LALR.Ending
import PBus.Foundation.Throwing
import PBus.Foundation.Folding
import PBus.Foundation.Chains
import PBus.ClassId
import PBus.Toolkit
import PBus.Connection.Tasks
import PBus.Connection.Basic
import PBus.Connection.Endpoint
import PBus.Connection.Decoding
import PBus.Connection.Reentrancy
import PBus.Connection.Incoming
import PBus.Connection.Outgoing
import PBus.Connection.Chunks
import PBus.Connection.Closing
import PBus.Link.Basic
import PBus.Link.Delivery
import PBus.Link.Exchange
import PBus.Session.Messages
import PBus.Link.Reconnect
import PBus.Session.Addressing
import PBus.Session.Services
import PBus.ServiceManager.Start
import PBus.ServiceManager.Startup
import PBus.Connection.Connecting
import PBus.Connection.Interest
import PBus.ServiceManager.Instances
import PBus.LocalBus
import PBus.TextualIds
import PBus.ServiceManager.Packages
import PBus.Session.Connections
import PBus.Session.Loss
import PBus.Session.Routing
import PBus.Session.Rpc
import PBus.Session.Correlation
import PBus.Session.Limits
import PBus.Session.Requests
import PBus.Session.Settlement
import PBus.Session.Collection
import PBus.Session.Replies
import PBus.Idl.Interfaces
import PBus.Idlc.Tree
import PBus.Idlc.Grammar
import PBus.Idlc.Language
import PBus.Idlc.Reading
import PBus.Idlc.Parser
import PBus.Idlc.Lexer
import PBus.Idlc.Cpp
import PBus.Idlc.Mangling
import PBus.Idlc.Artefacts
import PBus.Idlc.Visits
import PBus.ScanDeps
import PBus.ServiceManager.Sandbox
import PBus.Foundation.Simulation
import PBus.Foundation.Linearization
import PBus.Session.Serving
import PBus.Session.Handling
import PBus.Session.Clients
import PBus.Session.Atomicity
import PBus.Foundation.Inevitable
import PBus.Link.Work
import PBus.Session.Progress
import PBus.Session.Quiescence
import PBus.Idlc.Layout
import PBus.Foundation.Streams
import PBus.Connection.Sockets
import PBus.Link.AtMostOnce
import PBus.Session.Completion
import PBus.Link.Turns
import PBus.Session.CallBacks
import PBus.Idlc.Headers
import PBus.Foundation.Nesting
import PBus.Session.SingleCalls
import PBus.Session.Network
import PBus.Session.NestedCalls
