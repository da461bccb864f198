import Parikshan.Duplicator.Isolation
import Parikshan.Duplicator.Backpressure
import Parikshan.Duplicator.Fidelity
import Parikshan.Duplicator.Relay
import Parikshan.Duplicator.Synch
import Parikshan.Aggregator.Bounds
import Parikshan.Aggregator.Consumers
import Parikshan.Aggregator.LinkedQueue
import Parikshan.Aggregator.Options
import Parikshan.Aggregator.Relay
import Parikshan.Aggregator.Replay
import Parikshan.Aggregator.Updates
import Parikshan.JavaProxy.CleanClose
import Parikshan.JavaProxy.Isolation
import Parikshan.JavaProxy.Register
import Parikshan.JavaProxy.IdlePipe
import Parikshan.JavaProxy.Relay
import Parikshan.NioProxy.Config
import Parikshan.NioProxy.Lifecycle
import Parikshan.NioProxy.Service
import Parikshan.CloneManager.Consistency
import Parikshan.CloneManager.Restore
import Parikshan.CloneManager.Success
import Parikshan.CloneManager.Exclusion
import Parikshan.CloneManager.Leftovers
import Parikshan.CloneManager.Release
import Parikshan.CloneManager.Arrival
import Parikshan.Simulator.Generator
import Parikshan.Simulator.Overflow
import Parikshan.Simulator.Passes
import Parikshan.Simulator.Seeding
import Parikshan.Simulator.Statistics
