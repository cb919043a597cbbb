import ASky.Anonymity
import ASky.Client.KeyLookup
import ASky.Client.Search
import ASky.Client.TokenAws
import ASky.Concurrent.Deadlock
import ASky.Concurrent.Integrity
import ASky.Concurrent.Revocation
import ASky.Genuine
import ASky.Proxy.Stateless
import ASky.Server.EventLoop
import ASky.Service.Effects
import ASky.Service.Independence
import ASky.Setup
import ASky.Store.Commute
import ASky.System
import ASky.Tls.Reuse
