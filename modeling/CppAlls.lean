import CppAlls.Core.SslFrames
import CppAlls.Core.Retries
import CppAlls.Core.FailedReads
import CppAlls.Core.Destinations
import CppAlls.Core.Truncation
import CppAlls.Server.Rollback
import CppAlls.Server.EnumerationOrder
import CppAlls.Server.ConfigMerge
import CppAlls.Server.Names
import CppAlls.Server.Announcements
import CppAlls.Server.Restart
import CppAlls.Server.Renewal
import CppAlls.Server.Backing
import CppAlls.Apps.Processors
import CppAlls.Apps.AsyncResponses
import CppAlls.Apps.UdpDispatch
import CppAlls.Apps.Joining
import CppAlls.Apps.ConcurrentEcho
import CppAlls.Apps.Transparency
import CppAlls.Apps.Accounts
import CppAlls.Apps.HandlerMemory
import CppAlls.Apps.Serving
