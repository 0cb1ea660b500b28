import ChainIndexer.Core.Machine
import ChainIndexer.Native.Errors
import ChainIndexer.Consumer.Step
import ChainIndexer.Consumer.Flag
import ChainIndexer.Consumer.Effect
import ChainIndexer.Consumer.Buffered
import ChainIndexer.Consumer.Order
import ChainIndexer.Consumer.Delivery
import ChainIndexer.Producer.Pipeline
import ChainIndexer.Producer.Checkpoint
import ChainIndexer.Producer.Skip
import ChainIndexer.Producer.ReOrg
import ChainIndexer.Producer.Resume
import ChainIndexer.Native.Blocks
import ChainIndexer.Poller.State
import ChainIndexer.Poller.Effect
import ChainIndexer.Poller.Session
import ChainIndexer.Subscription.State
import ChainIndexer.Subscription.Step
import ChainIndexer.Core.Climb
import ChainIndexer.Core.History
import ChainIndexer.Subscription.Calls
import ChainIndexer.Subscription.Detection
import ChainIndexer.Subscription.Alarm
import ChainIndexer.Subscription.Gap
import ChainIndexer.Core.Observe
import ChainIndexer.Subscription.Release
import ChainIndexer.Lifecycle.State
import ChainIndexer.Lifecycle.Step
import ChainIndexer.Lifecycle.Effect
import ChainIndexer.Lifecycle.Stopped
import ChainIndexer.Consumer.Prefix
import ChainIndexer.Consumer.Pressure
import ChainIndexer.Consumer.Removal
import ChainIndexer.Consumer.Closed
import ChainIndexer.Consumer.Errors
import ChainIndexer.Transformer.State
import ChainIndexer.Transformer.Loss
import ChainIndexer.Lifecycle.Restart
import ChainIndexer.Subscription.BackFill
import ChainIndexer.Subscription.Session
import ChainIndexer.Inserting.Window
import ChainIndexer.Inserting.Retry
import ChainIndexer.Delivery.State
import ChainIndexer.Delivery.Fate
import ChainIndexer.Polling.State
import ChainIndexer.Polling.Session
import ChainIndexer.Workers.State
import ChainIndexer.Workers.Routing
import ChainIndexer.Workers.Promises
import ChainIndexer.Core.Program
import ChainIndexer.Getter.Calls
import ChainIndexer.Getter.Snapshot
import ChainIndexer.Consumer.Rejection
import ChainIndexer.Connection.State
import ChainIndexer.Connection.Listeners
import ChainIndexer.Lifecycle.Listeners
import ChainIndexer.Queue.State
import ChainIndexer.Queue.Refinement
import ChainIndexer.Subscription.NextBlock
import ChainIndexer.Workers.Pool
import ChainIndexer.Workers.Exits
import ChainIndexer.Core.Meter
import ChainIndexer.Getter.Budget
import ChainIndexer.Core.Hex
import ChainIndexer.Formatter.Receipts
import ChainIndexer.Formatter.Agreement
import ChainIndexer.Core.Branch
import ChainIndexer.Core.Redelivery
import ChainIndexer.Core.Relay
import ChainIndexer.Core.Service
import ChainIndexer.Core.Attempts
import ChainIndexer.Core.Gapless
import ChainIndexer.Core.Traversal
import ChainIndexer.Consumer.Lined
import ChainIndexer.Consumer.Process
import ChainIndexer.Consumer.Concurrent
import ChainIndexer.Consumer.Execute
import ChainIndexer.Transfers.State
import ChainIndexer.Transfers.Collection
import ChainIndexer.Transfers.Mapper
import ChainIndexer.Transfers.Pipeline
import ChainIndexer.Tokens.State
import ChainIndexer.Tokens.Owners
import ChainIndexer.Tokens.Mapper
import ChainIndexer.Tokens.Pipeline
import ChainIndexer.Getter.Requests
import ChainIndexer.Getter.QuickNode
import ChainIndexer.Poller.Stall
import ChainIndexer.Polling.Feed
import ChainIndexer.Formatter.Blocks
import ChainIndexer.Formatter.Getters
import ChainIndexer.Formatter.Numbers
import ChainIndexer.Coder.State
import ChainIndexer.Coder.Order
import ChainIndexer.Coder.Answers
import ChainIndexer.Topic.State
import ChainIndexer.Topic.Resumption
import ChainIndexer.Topic.Effect
import ChainIndexer.Topic.Unbroken
import ChainIndexer.Topic.BlockPoller
import ChainIndexer.Transfers.Indexer
