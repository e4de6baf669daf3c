import Vanguard.Acl.Atomicity
import Vanguard.Acl.DateRanges
import Vanguard.Auth.Aborts
import Vanguard.Auth.Atomicity
import Vanguard.Auth.Framing
import Vanguard.Cache.Cleaning
import Vanguard.Cache.Lifetimes
import Vanguard.Cache.LruMap
import Vanguard.Cache.PrefetchKeys
import Vanguard.Cache.Questions
import Vanguard.Cache.Sizing
import Vanguard.Dns64.Configuration
import Vanguard.Filter.NameThrottler
import Vanguard.Filter.RecordStore
import Vanguard.Forwarder.Crashes
import Vanguard.Forwarder.Health
import Vanguard.Forwarder.Probing
import Vanguard.Forwarder.QuerySource
import Vanguard.Forwarder.Rotation
import Vanguard.K8s.Coverage
import Vanguard.K8s.Headless
import Vanguard.K8s.Redirect
import Vanguard.K8s.ReverseZones
import Vanguard.K8s.ServiceUpdates
import Vanguard.LocalData.AllOrNothing
import Vanguard.LocalData.Sequences
import Vanguard.Query.AliasQuestions
import Vanguard.Query.Rejection
import Vanguard.Query.Routes
import Vanguard.Recursor.Poisoning
import Vanguard.Recursor.Pools
import Vanguard.Recursor.Recursion
import Vanguard.Recursor.Smoothing
import Vanguard.Recursor.Trimming
import Vanguard.Recursor.Waiting
import Vanguard.Server.Slots
import Vanguard.SortList.Order
import Vanguard.ViewSelector.Priorities
import Vanguard.Xfr.DoXfr
import Vanguard.Xfr.IncrementalTransfer
import Vanguard.Xfr.Notify
import Vanguard.Xfr.SerialOrder
import Vanguard.Zone.Addresses
import Vanguard.Zone.Exclusivity
import Vanguard.Zone.Lookup
import Vanguard.Zone.Replacement
import Vanguard.Zone.Singletons
