import TwitterLite.Library.TransitionSystem
import TwitterLite.Library.RowEdits
import TwitterLite.Library.DispatchGroup
import TwitterLite.Library.Unwinding
import TwitterLite.Library.Descending
import TwitterLite.Library.Join
import TwitterLite.Library.PathTree
import TwitterLite.Library.Pattern
import TwitterLite.Library.Window
import TwitterLite.Library.Comparator
import TwitterLite.Library.Numeral
import TwitterLite.Library.LastWriter
import TwitterLite.Library.Replay
import TwitterLite.Common.Models
import TwitterLite.Common.EndPoints
import TwitterLite.Common.FirebaseQuery
import TwitterLite.Common.Database
import TwitterLite.Common.Snapshot
import TwitterLite.Common.Encoding
import TwitterLite.Common.RoundTrip
import TwitterLite.Home.ViewModel
import TwitterLite.Home.Timeline
import TwitterLite.Home.ClockSkew
import TwitterLite.Home.Overlap
import TwitterLite.Home.DeleteTweet
import TwitterLite.Home.Deletions
import TwitterLite.Home.DeletePath
import TwitterLite.NewTweet.AddTweet
import TwitterLite.NewTweet.PhotoOrder
import TwitterLite.NewTweet.Publishing
import TwitterLite.Session.Authentication
import TwitterLite.Session.CachedProfile
import TwitterLite.Session.App
import TwitterLite.Session.Compose
import TwitterLite.Session.DeleteButton
import TwitterLite.Session.LoginFlows
import TwitterLite.Session.Stranded
import TwitterLite.Session.FetchOperations
import TwitterLite.Session.Passwords
import TwitterLite.Home.Table
import TwitterLite.Home.Retry
import TwitterLite.Home.Posting
import TwitterLite.Home.EqualStamps
import TwitterLite.Home.AuthorJoin
import TwitterLite.Home.MalformedRecords
import TwitterLite.Session.Launch
import TwitterLite.Session.TopOfFeed
import TwitterLite.Home.Scrolling
import TwitterLite.NewTweet.CharacterLimit
import TwitterLite.NewTweet.Gallery
import TwitterLite.NewTweet.FailedPost
import TwitterLite.Common.Email
import TwitterLite.Session.Credentials
import TwitterLite.Session.EmailAddresses
import TwitterLite.Session.ProfilePicture
import TwitterLite.Network.Reachability
import TwitterLite.Network.Monitoring
import TwitterLite.Network.Banner
import TwitterLite.Firebase.Keys
import TwitterLite.Firebase.Index
import TwitterLite.Firebase.LimitedFilter
import TwitterLite.Firebase.QueryParams
import TwitterLite.Firebase.QueryMethods
import TwitterLite.Firebase.WindowUpdates
import TwitterLite.Firebase.PushIds
import TwitterLite.Firebase.TimelineQuery
import TwitterLite.Firebase.PendingWrites
import TwitterLite.Firebase.Connection
import TwitterLite.Firebase.InFlight
import TwitterLite.Firebase.ConnectionRuns
import TwitterLite.Firebase.Delivery
